import SyntaxForest.Number.Integer
import SyntaxForest.Text.Split

/-!
# Arguments

The words of a command line are options and operands. An option has a long name
and perhaps a letter, and is a flag or takes a value: the rest of its word, or
the next word. Letters can share a word. Two dashes end the options, and the
words of a command begin where the program's own options end.
-/

namespace SyntaxForest.CommandLine

/-- **An option** that may be given. -/
structure OptionRule where
  name : String
  letter : Option Char := none
  takesValue : Bool := false

/-- An option that was given. -/
structure GivenOption where
  name : String
  value : Option String := none
  deriving DecidableEq, Repr

/-- What one word gives: options, and the name of an option whose value is the
next word. -/
abbrev Word := List GivenOption × Option String

/-- The letters of a word: flags, and perhaps an option with a value, which is the
rest. -/
def letters? (rules : List OptionRule) : List Char → Option Word
  | [] => some ([], none)
  | c :: rest =>
    match rules.find? (·.letter == some c) with
    | none => none
    | some r =>
      if !r.takesValue then
        (letters? rules rest).map fun (given, awaited) => (⟨r.name, none⟩ :: given, awaited)
      else if rest.isEmpty then some ([], some r.name)
      else some ([⟨r.name, some (String.ofList rest)⟩], none)

/-- A word with a long name, and a value if it has an equals sign. -/
def long? (rules : List OptionRule) (cs : List Char) : Option Word :=
  let name := String.ofList (cs.takeWhile (· != '='))
  match rules.find? (·.name == name), cs.dropWhile (· != '=') with
  | none, _ => none
  | some r, [] => if r.takesValue then some ([], some r.name) else some ([⟨r.name, none⟩], none)
  | some r, _ :: value =>
    if r.takesValue then some ([⟨r.name, some (String.ofList value)⟩], none) else none

/-- What a word gives, if it is made of options. -/
def word? (rules : List OptionRule) : List Char → Option Word
  | '-' :: '-' :: name => long? rules name
  | '-' :: cs => letters? rules cs
  | _ => none

/-- Whether a word has to be made of options. -/
def isOptionWord (word : String) : Bool :=
  match word.toList with
  | '-' :: _ :: _ => true
  | _ => false

/-- **The options and the operands of words**, or none if a word is neither. With
`mixed`, options may follow operands; otherwise the first operand ends them. -/
def readWords (rules : List OptionRule) (mixed : Bool) :
    List String → Option (List GivenOption × List String)
  | [] => some ([], [])
  | word :: rest =>
    if word = "--" then some ([], rest)
    else if isOptionWord word then
      match word? rules word.toList with
      | none => none
      | some (given, none) =>
        (readWords rules mixed rest).map fun (more, operands) => (given ++ more, operands)
      | some (given, some name) =>
        match rest with
        | [] => none
        | value :: rest =>
          (readWords rules mixed rest).map fun (more, operands) =>
            (given ++ ⟨name, some value⟩ :: more, operands)
    else if mixed then
      (readWords rules mixed rest).map fun (given, operands) => (given, word :: operands)
    else some ([], word :: rest)

/-- Whether an option was given. -/
def isGiven (given : List GivenOption) (name : String) : Bool := given.any (·.name == name)

/-- The value of an option: the one given last. -/
def valueOf? (given : List GivenOption) (name : String) : Option String :=
  ((given.filter (·.name == name)).getLast?).bind (·.value)

/-! ## The options of the program -/

/-- The option that asks for help. -/
def helpRule : OptionRule := { name := "help" }

/-- The options in front of a command. -/
def programRules : List OptionRule :=
  [{ name := "config", letter := some 'c', takesValue := true },
    { name := "verbose", letter := some 'v' },
    { name := "quiet", letter := some 'q' },
    { name := "ci" },
    { name := "version" },
    helpRule]

/-- **The commands.** -/
inductive CommandName
  | analyze
  | languages
  | init
  deriving DecidableEq, Repr

namespace CommandName

/-- The command of a name. -/
def ofText? (s : String) : Option CommandName :=
  [("analyze", analyze), ("languages", languages), ("init", init)].lookup s

/-- The options of a command. -/
def rules : CommandName → List OptionRule
  | analyze =>
    [{ name := "sequential" },
      { name := "max-concurrency", letter := some 'j', takesValue := true },
      { name := "json" },
      helpRule]
  | languages => [{ name := "json" }, helpRule]
  | init => [{ name := "force" }, helpRule]

end CommandName

/-- **A command with what it is told.** -/
inductive Command
  | analyze (path : String) (sequential : Bool) (limit : Option Int) (json : Bool)
  | languages (json : Bool)
  | init (force : Bool)
  | help
  deriving DecidableEq, Repr

/-- The limit that a word gives: an integer that is at least one. -/
def limit? : Option String → Option (Option Int)
  | none => some none
  | some s =>
    match Number.readInteger 10 s with
    | .ok n => if n < 1 then none else some (some n)
    | .error _ => none

/-- **The command that words give**, or none if they give none. -/
def Command.ofWords? (name : CommandName) (words : List String) : Option Command := do
  let (given, operands) ← readWords name.rules true words
  let has := isGiven given
  if has "help" then return .help
  match name, operands with
  | .analyze, [path] =>
    return .analyze path (has "sequential") (← limit? (valueOf? given "max-concurrency"))
      (has "json")
  | .languages, [] => return .languages (has "json")
  | .init, [] => return .init (has "force")
  | _, _ => none

end SyntaxForest.CommandLine
