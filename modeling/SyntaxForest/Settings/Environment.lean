import SyntaxForest.Value

/-!
# Variables of the environment

Settings may name variables of the environment, as in `${NAME}`: the name is
everything up to the next closing brace, and at least one character. Each such
place is replaced by the variable's value, in all texts that are values, but not
in keys.
-/

namespace SyntaxForest.Settings

/-- The variables that are set. -/
abbrev Environment := List (String × String)

/-- The name at a place behind an opening brace, and what follows its closing
brace. -/
def name? (cs : List Char) : Option (String × List Char) :=
  match cs.takeWhile (· != '\x7d'), cs.dropWhile (· != '\x7d') with
  | [], _ => none
  | _, [] => none
  | name, _ :: rest => some (String.ofList name, rest)

/-- The text from a place on with variables replaced, or the name of the first
variable that is not set. At most `fuel` characters are gone through. -/
def replaceFrom (env : Environment) : Nat → List Char → Except String (List Char)
  | 0, cs => .ok cs
  | _, [] => .ok []
  | fuel + 1, c :: rest =>
    let place := match c, rest with
      | '$', '\x7b' :: inner => name? inner
      | _, _ => none
    match place with
    | none => (replaceFrom env fuel rest).map (c :: ·)
    | some (name, after) =>
      match env.lookup name with
      | none => .error name
      | some value => (replaceFrom env fuel after).map (value.toList ++ ·)

/-- **A text with variables replaced.** -/
def replaceVariables (env : Environment) (s : String) : Except String String :=
  (replaceFrom env s.length s.toList).map String.ofList

mutual

/-- **A value with variables replaced** in its texts, or the name of the first
variable that is not set. -/
def substitute (env : Environment) : Value → Except String Value
  | .text s => (replaceVariables env s).map .text
  | .list items => (substituteItems env items).map .list
  | .dict entries => (substituteEntries env entries).map .dict
  | v => .ok v

/-- Items with variables replaced. -/
def substituteItems (env : Environment) : List Value → Except String (List Value)
  | [] => .ok []
  | v :: rest => do return (← substitute env v) :: (← substituteItems env rest)

/-- Entries with variables replaced in what their keys stand for. -/
def substituteEntries (env : Environment) :
    List (Value × Value) → Except String (List (Value × Value))
  | [] => .ok []
  | (k, v) :: rest => do return (k, ← substitute env v) :: (← substituteEntries env rest)

end

end SyntaxForest.Settings
