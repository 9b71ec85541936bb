import SyntaxForest.CommandLine.Arguments
import SyntaxForest.CommandLine.Display
import SyntaxForest.Settings.Load

/-!
# Running a command line

A run takes the words of a command line and the files at hand, and yields what
is printed, what is told in the journal, how the program ends, and the files
afterwards. It ends with 0 if all went well, with 1 if nothing could be done,
and with 2 if some files failed or the words make no command.
-/

namespace SyntaxForest.CommandLine

open Analysis

/-- The version of the program. -/
def version : String := "0.1.0"

/-- The speaker for what a command does. -/
def speaker : String := "polyast"

/-- **What a run finds.** -/
structure Surroundings where
  files : Files
  environment : Settings.Environment
  grammars : Grammars
  now : Moment
  processors : Nat
  /-- Whether the journal goes to a terminal. -/
  terminal : Bool := false

/-- A fault that nothing in the program deals with. -/
inductive Escape
  | settings (fault : Settings.LoadFault)
  | batch (fault : Batch.Fault)
  | file (fault : FileFault)

/-- The wording of a fault. -/
def Escape.message : Escape → String
  | .settings fault => fault.message
  | .batch fault => fault.message
  | .file fault => fault.message

/-- **How a run ends.** -/
inductive Outcome
  /-- The words make no command. -/
  | misused
  /-- Help is shown. -/
  | helped
  | ended (exitCode : Nat) (printed journal : String) (escape : Option Escape)

/-- The number that a run ends with. -/
def Outcome.exitCode : Outcome → Nat
  | .misused => 2
  | .helped => 0
  | .ended n _ _ _ => n

/-- A run that may end early, and what it yields otherwise. -/
abbrev Attempt (α : Type) := Except Outcome α

/-! ## Settings -/

/-- Whether a fault of the settings is one that the program tells of and ends. -/
def isToldOf : Settings.LoadFault → Bool
  | .missing _ | .file _ | .notText _ | .notMapping _ => true
  | .notDocument fault =>
    match fault with
    | .notInteger _ | .notReal _ | .outOfBounds _ | .noCharacter => true
    | _ => false
  | .refused .notSection => false
  | .refused _ => true

/-- What is told of a fault of the settings. -/
def settingsEntry (fault : Settings.LoadFault) : Journal.Entry :=
  match fault with
  | .missing _ | .file ⟨_, .missing⟩ => .error speaker fault.message
  | _ => .error speaker ("Failed to load config: " ++ fault.message)

/-- The settings of a run and what is told of them. -/
def loadSettings (s : Surroundings) (journal : Journal) (named : Option Path) :
    Attempt (Settings × List Journal.Entry) :=
  match Settings.load s.files s.environment named true with
  | .ok settings =>
    let entries := settings.source.toList.map fun path =>
      Journal.Entry.debug speaker ("Loaded config from: " ++ path.text)
    .ok (settings, entries)
  | .error fault =>
    if isToldOf fault then
      .error (.ended 1 "" (journal.write s.now s.terminal [settingsEntry fault]) none)
    else .error (.ended 1 "" "" (some (.settings fault)))

/-- The analyzers that settings ask for. -/
def registryOf (settings : Settings) : Registry :=
  (Registry.standard (.real settings.tolerance)).freeze

/-! ## Analyzing -/

/-- What analyzing a path yields: whether something failed, and a text. -/
abbrev Analyzed := Bool × String

/-- What is printed for a file. -/
def analyzedFile (json : Bool) (r : FileResult) : Analyzed :=
  match r.outcome with
  | .analysed report =>
    (false, if json then jsonOf (report.toValue true) else textOf [reportLine report])
  | .failed failure =>
    (true, if json then jsonOf failure.toValue else textOf [failureLine failure])

/-- What is printed for a project or a solution. -/
def analyzedReport (json : Bool) (r : Batch.Report) : Analyzed :=
  (r.hasFailures, if json then jsonOf r.toValue else textOf (reportLines r))

/-- **Analyzing a path**: as a directory, a solution, a project or a file. -/
def analyzePath (setting : Batch.Setting) (json : Bool) (path : Path) : Batch.Work Analyzed := do
  if setting.files.isDirectory path then
    return analyzedReport json (← Batch.analyseDirectory setting path)
  else if Batch.isSolutionPath path then
    return analyzedReport json (.solution (← Batch.analyseSolution setting path))
  else if setting.registry.isProject path.text then
    return analyzedReport json (.project (← Batch.analyseProject setting path))
  else return analyzedFile json (← Batch.analyseFile setting 0 path)

/-- The message of a fault that ends analyzing and is told of. -/
def toldFault? : Batch.Fault → Option String
  | .manifest fault@(.refused ..) => some fault.message
  | .analysis failure@(.grammarUnavailable ..) => some failure.message
  | _ => none

/-- What is told of a path that is going to be analyzed. -/
def analyzingEntry (path : Path) (o : Batch.Options) : Journal.Entry :=
  .info speaker
    ("Analyzing " ++ path.text ++ " (" ++ o.mode.text ++ ", max " ++ toString o.limit ++ ")")

/-- **The command that analyzes a path.** -/
def analyze (s : Surroundings) (journal : Journal) (told : List Journal.Entry)
    (settings : Settings) (path : Path) (sequential : Bool) (limit : Option Int) (json : Bool) :
    Outcome :=
  let o := settings.options s.processors
  let o := { o with
    mode := if sequential then .sequential else o.mode, limit := limit.getD o.limit }
  let setting : Batch.Setting :=
    { files := s.files, grammars := s.grammars, registry := registryOf settings, options := o
      now := s.now }
  let told := told ++ [analyzingEntry path o]
  let (r, progress) := (analyzePath setting json path).run.run { entries := told }
  let written (more : List Journal.Entry) : String :=
    journal.write s.now s.terminal (progress.entries ++ more)
  match r with
  | .ok (failed, text) => .ended (if failed then 2 else 0) text (written []) none
  | .error fault =>
    match toldFault? fault with
    | some message => .ended 1 "" (written [.error speaker message]) none
    | none => .ended 1 "" (written []) (some (.batch fault))

/-! ## The other commands -/

/-- **The command that lists analyzers.** -/
def listAnalyzers (registry : Registry) (json : Bool) : String :=
  if json then jsonOf (.list (registry.analyzers.map (·.metadata)))
  else textOf (analyzerLines registry)

/-- The directory and the file of settings to begin with. -/
def settingsPlace : Path × Path := (⟨"", [".polyast"]⟩, ⟨"", [".polyast", "config.yaml"]⟩)

/-- **The command that writes settings to begin with**: what is told, and the
files afterwards. -/
def writeSettings (s : Surroundings) (force : Bool) (write : List Journal.Entry → String) :
    Outcome × Files :=
  let (directory, file) := settingsPlace
  let files := s.files.put directory .emptyDirectory
  let escaped (path : Path) (trouble : Trouble) : Outcome :=
    .ended 1 "" (write []) (some (.file ⟨path, trouble⟩))
  if s.files.isFile directory then (escaped directory .exists, s.files)
  else if files.has file && !force then
    let told := [.error speaker ("Config already exists: " ++ file.text),
      .info speaker "Use --force to overwrite"]
    (.ended 1 "" (write told) none, files)
  else if files.isDirectory file then (escaped file .isDirectory, files)
  else
    (.ended 0 (textOf ["✅ Created " ++ file.text]) (write []) none,
      files.put file (.file (.ofText Settings.template)))

/-! ## The program -/

/-- Whether the words ask for help or the version, whichever comes first. -/
def eager? (given : List GivenOption) : Option Outcome :=
  (given.find? fun g => g.name == "help" || g.name == "version").map fun g =>
    if g.name == "help" then .helped
    else .ended 0 (textOf ["polyast " ++ version]) "" none

/-- The file of settings that is named, which has to be there. -/
def namedSettings (f : Files) (given : List GivenOption) : Attempt (Option Path) :=
  match valueOf? given "config" with
  | none => .ok none
  | some text =>
    let path := Path.ofText text
    if text ≠ "" && f.isFile path then .ok (some path) else .error .misused

/-- A command with the settings loaded. -/
def execute (s : Surroundings) (journal : Journal) (settings : Settings)
    (told : List Journal.Entry) : Command → Outcome × Files
  | .help => (.helped, s.files)
  | .languages json =>
    (.ended 0 (listAnalyzers (registryOf settings) json) (journal.write s.now s.terminal told) none,
      s.files)
  | .init force =>
    writeSettings s force fun more => journal.write s.now s.terminal (told ++ more)
  | .analyze path sequential limit json =>
    if path = "" || !s.files.has (.ofText path) then (.misused, s.files)
    else (analyze s journal told settings (.ofText path) sequential limit json, s.files)

/-- A run up to its end. -/
def attempt (s : Surroundings) (words : List String) : Attempt (Outcome × Files) := do
  if words.isEmpty then throw .misused
  let (given, rest) ← (readWords programRules false words).elim (throw .misused) pure
  if let some outcome := eager? given then throw outcome
  let named ← namedSettings s.files given
  let (name, more) ← match rest with
    | [] => throw .misused
    | name :: more => (CommandName.ofText? name).elim (throw .misused) fun n => pure (n, more)
  let journal := Journal.ofFlags (isGiven given "verbose") (isGiven given "quiet")
    (isGiven given "ci")
  let (settings, told) ← loadSettings s journal named
  let command ← (Command.ofWords? name more).elim (throw .misused) pure
  return execute s journal settings told command

/-- **A run of the program.** -/
def run (s : Surroundings) (words : List String) : Outcome × Files :=
  match attempt s words with
  | .ok r => r
  | .error outcome => (outcome, s.files)

end SyntaxForest.CommandLine
