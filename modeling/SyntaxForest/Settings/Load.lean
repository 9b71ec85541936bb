import SyntaxForest.Files.Store
import SyntaxForest.Settings.Basic
import SyntaxForest.Yaml.Document

/-!
# Settings in files

Settings are in a file that is named, or in one of two places below the current
directory, or they are the usual ones. Lines may end in any of the usual ways;
they all are read as line feeds.
-/

namespace SyntaxForest.Settings

/-- Why settings cannot be loaded. -/
inductive LoadFault
  | missing (path : Path)
  | file (fault : FileFault)
  | notText (malformed : Text.Utf8.Malformed)
  | notDocument (fault : Yaml.Fault)
  /-- The document is no dictionary. -/
  | notMapping (path : Path)
  | refused (fault : Fault)

/-- The wording of a fault, as far as it has one. -/
def LoadFault.message : LoadFault → String
  | .missing path => "Config file not found: " ++ path.text
  | .file fault => fault.message
  | .notText m => m.message
  | .notDocument fault => fault.message
  | .notMapping path => "Config file must contain a mapping: " ++ path.text
  | .refused fault => fault.message

/-! ## Where settings are -/

/-- The places where settings are looked for below a directory. -/
def places : List Path := [⟨"", [".polyast", "config.yaml"]⟩, ⟨"", ["polyast.yaml"]⟩]

/-- **The file with settings for a directory**, if there is one. -/
def find? (f : Files) (directory : Path) : Option Path :=
  (places.map (f.resolve directory).join).find? f.has

/-! ## Reading a file -/

/-- Every line's end as a line feed. -/
def unifyLines : List Char → List Char
  | '\r' :: '\n' :: rest => '\n' :: unifyLines rest
  | '\r' :: rest => '\n' :: unifyLines rest
  | c :: rest => c :: unifyLines rest
  | [] => []

/-- **The text of a file.** A character that is cut off by the file's end is
counted from its own beginning. -/
def readLines (f : Files) (path : Path) : Except LoadFault String := do
  let bytes ← (f.read path).mapError .file
  match Text.Utf8.decode bytes with
  | .ok s => return String.ofList (unifyLines s.toList)
  | .error m =>
    let isCut := m.cause == .cutShort
    throw (.notText { m with position := if isCut then 0 else m.position })

/-- **The settings in a file.** A file that holds nothing gives the usual ones. -/
def read (f : Files) (env : Environment) (path : Path) : Except LoadFault Settings := do
  let v ← (Yaml.load (← readLines f path)).mapError .notDocument
  let v := if v.truthy then v else .dict []
  match v with
  | .dict _ =>
    let s ← (ofValue env v).mapError .refused
    return { s with source := some path }
  | _ => throw (.notMapping path)

/-- **The settings for a run**: those of the file that is named, else, if they may
be looked for, those found, else the usual ones. -/
def load (f : Files) (env : Environment) (named : Option Path) (lookFor : Bool) :
    Except LoadFault Settings :=
  match named with
  | some path => if f.has path then read f env path else .error (.missing path)
  | none =>
    match if lookFor then find? f ⟨"", []⟩ else none with
    | some path => read f env path
    | none => .ok {}

/-! ## A file to begin with -/

/-- **The text of a settings file** that says what the usual settings say. -/
def template : String :=
  String.join (List.map (· ++ "\n")
    ["# polyast Configuration",
      "",
      "# Batch processing",
      "processing:",
      "  mode: \"concurrent\"     # concurrent, sequential",
      "  max_concurrency: null  # null = number of CPUs",
      "",
      "# Parser tolerance",
      "parsing:",
      "  max_error_ratio: 0.5   # 0.0 rejects any file with syntax errors",
      "",
      "# Source discovery",
      "discovery:",
      "  exclude_dirs:",
      "    - bin",
      "    - obj",
      "    - .git",
      "    - .vs",
      "    - node_modules",
      "    - packages"])

end SyntaxForest.Settings
