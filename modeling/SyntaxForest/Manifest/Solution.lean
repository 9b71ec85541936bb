import SyntaxForest.Manifest.Project

/-!
# Solutions

A solution is a text with an entry for each of its projects, among lines of many
other kinds. An entry begins a line, its fields stand between quotes, and blanks
of any kind – line ends too – may stand around its signs. Entries of what is no
project, such as folders, are passed over.
-/

namespace SyntaxForest

/-- **An entry of a solution.** -/
structure SolutionMember where
  name : String
  path : Path
  typeGuid : String
  projectGuid : String
  deriving Repr, DecidableEq

/-- **What a solution consists of.** All paths are absolute. -/
structure SolutionManifest where
  path : Path
  name : String
  members : List SolutionMember
  formatVersion : Option String
  studioVersion : Option String
  deriving Repr

namespace Manifest

namespace Solution

/-! ## Reading a text -/

/-- What is left behind blanks. -/
def skipBlanks (cs : List Char) : List Char := cs.dropWhile Text.isBlank

/-- A word of other characters than blanks, and what follows it. -/
def word? (cs : List Char) : Option String :=
  match cs.takeWhile fun c => !Text.isBlank c with
  | [] => none
  | w => some (String.ofList w)

/-- What is left behind at least one blank. -/
def someBlanks? : List Char → Option (List Char)
  | c :: rest => if Text.isBlank c then some (skipBlanks rest) else none
  | [] => none

/-- What is left behind a sign with blanks around it. -/
def sign? (c : Char) (cs : List Char) : Option (List Char) :=
  match skipBlanks cs with
  | d :: rest => if c = d then some (skipBlanks rest) else none
  | [] => none

/-- What is left behind a given text. -/
def given? (text : String) (cs : List Char) : Option (List Char) :=
  Text.dropFront? text.toList cs

/-- A field up to a sign, and what is left behind it. -/
def field? (close : Char) (cs : List Char) : Option (List Char × List Char) :=
  match cs.dropWhile (· != close) with
  | [] => none
  | _ :: rest => some (cs.takeWhile (· != close), rest)

/-- A field between quotes. -/
def quoted? (cs : List Char) : Option (List Char × List Char) := do
  field? '"' (← given? "\"" cs)

/-- A field between braces that is not empty. -/
def braced? (cs : List Char) : Option (List Char × List Char) := do
  let (guid, rest) ← field? '\x7d' (← given? "\x7b" cs)
  if guid.isEmpty then none else some (guid, rest)

/-- An entry as it is written. -/
structure WrittenEntry where
  type : List Char
  name : List Char
  path : List Char
  guid : List Char
  deriving DecidableEq, Repr

/-- **The entry at the beginning of a line**, and what follows it. -/
def entry? (cs : List Char) : Option (WrittenEntry × List Char) := do
  let (type, cs) ← braced? (← given? "Project(\"" cs)
  let cs ← sign? '=' (← given? "\")" cs)
  let (name, cs) ← quoted? cs
  let cs ← sign? ',' cs
  let (path, cs) ← quoted? cs
  let cs ← sign? ',' cs
  let (guid, cs) ← braced? (← given? "\"" cs)
  return (⟨type, name, path, guid⟩, ← given? "\"" cs)

/-- What is left from the next line on. -/
def nextLine? (cs : List Char) : Option (List Char) :=
  match cs.dropWhile (· != '\n') with
  | [] => none
  | _ :: rest => some rest

/-- The lines of a text, each with all that follows it, for at most `fuel` of
them. -/
def linesFrom : Nat → List Char → List (List Char)
  | 0, _ => []
  | fuel + 1, cs =>
    match nextLine? cs with
    | none => [cs]
    | some rest => cs :: linesFrom fuel rest

/-- **The lines of a text**, each with all that follows it. -/
def linesOf (cs : List Char) : List (List Char) := linesFrom (cs.length + 1) cs

/-- The entries of a text, for at most `fuel` lines. The next entry is looked for
behind the end of the last, which may be on a later line. -/
def entriesFrom : Nat → List Char → List WrittenEntry
  | 0, _ => []
  | fuel + 1, cs =>
    let (found, after) := match entry? cs with
      | some (e, rest) => ([e], rest)
      | none => ([], cs)
    match nextLine? after with
    | none => found
    | some rest => found ++ entriesFrom fuel rest

/-- **The entries of a text.** -/
def entries (cs : List Char) : List WrittenEntry := entriesFrom (cs.length + 1) cs

/-- The word behind a heading and blanks, at the beginning of a text. -/
def wordBehind? (heading : String) (cs : List Char) : Option String := do
  word? (← someBlanks? (← given? heading cs))

/-- The version of the format: the word behind the first heading that has one,
wherever it stands. -/
def formatVersion? (cs : List Char) : Option String :=
  match wordBehind? "Microsoft Visual Studio Solution File, Format Version" cs with
  | some w => some w
  | none =>
    match cs with
    | [] => none
    | _ :: rest => formatVersion? rest

/-- The version in a remark at the beginning of a line. -/
def remarkedVersion? (cs : List Char) : Option String := do
  let cs := skipBlanks (← given? "#" cs)
  wordBehind? "Visual Studio Version" cs <|> wordBehind? "Visual Studio" cs

/-- The version in a property at the beginning of a line. -/
def statedVersion? (cs : List Char) : Option String := do
  word? (← sign? '=' (← given? "VisualStudioVersion" cs))

/-- The version of the program that wrote a text. A remark counts before a
property. -/
def studioVersion? (cs : List Char) : Option String :=
  (linesOf cs).findSome? remarkedVersion? <|> (linesOf cs).findSome? statedVersion?

/-! ## Members -/

/-- The member that an entry stands for, if it stands for a project. -/
def member? (f : Files) (directory : Path) (e : WrittenEntry) :
    Except Fault (Option SolutionMember) :=
  let relative := Text.replaceChar '\\' '/' (String.ofList e.path)
  if isProjectPath relative then do
    let path ← resolve f (directory.join (.ofText relative))
    return some {
      name := String.ofList e.name, path
      typeGuid := Text.upper (String.ofList e.type)
      projectGuid := Text.upper (String.ofList e.guid) }
  else .ok none

end Solution

/-- **Reading a solution.** It has to state its format or to have an entry. -/
def readSolution (f : Files) (path : Path) : Except Fault SolutionManifest := do
  let path ← resolve f path
  let content ← (f.readText path).mapError fun
    | .file fault => .refused path (.file fault)
    | .notText m => .refused path (.notText m)
  let cs := content.toList
  let formatVersion := Solution.formatVersion? cs
  let entries := Solution.entries cs
  if formatVersion.isNone && entries.isEmpty then .error (.refused path .notSolution)
  else
    let members ← entries.mapM (Solution.member? f path.parent)
    return {
      path, name := path.stem, members := members.filterMap id
      formatVersion, studioVersion := Solution.studioVersion? cs }

end Manifest

end SyntaxForest
