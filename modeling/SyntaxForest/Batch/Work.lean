import SyntaxForest.Analysis.Registry
import SyntaxForest.Batch.Options
import SyntaxForest.Manifest.Solution

/-!
# The work of a batch

Every file of a batch is one job. A file that nobody takes, that cannot be read
or that cannot be parsed does not stop the batch: its failure is the job's
result. Only what is wrong with the program's surroundings – a grammar that is
missing, a path that no file can have – ends the batch.

The jobs share what has happened so far: whether the batch is cancelled, how
many sources were read, which parsers are set up, and the journal's entries.
-/

namespace SyntaxForest.Batch

open Analysis

/-- **What a batch works with.** -/
structure Setting where
  files : Files
  grammars : Grammars
  registry : Registry
  options : Options
  /-- The moment at which reports are made. -/
  now : Moment
  /-- Whether the batch is cancelled when a source is about to be read, told by
  how many were read before. -/
  cancelledAt : Nat → Bool := fun _ => false
  /-- Which of the files that are run at a time is done first. -/
  completion : Schedule.Completion := .firstBegun
  /-- What keeps the manifest of a project from being read though the files do not show
  it: who may enter what, links that lead in a circle, a limit of the system or of the
  stack. -/
  obstacle : Path → Option Manifest.Fault := fun _ => none

/-- **What has happened so far.** -/
structure Progress where
  cancelled : Bool := false
  reads : Nat := 0
  parsers : List String := []
  entries : List Journal.Entry := []

/-- Why a batch ends without a report. -/
inductive Fault
  | analysis (failure : Failure)
  | manifest (fault : Manifest.Fault)
  | directory (fault : FileFault)
  | nullCharacter
  | noRoom (limit : Int)

/-- The wording of a fault. -/
def Fault.message : Fault → String
  | .analysis failure => failure.message
  | .manifest fault => fault.message
  | .directory fault => fault.message
  | .nullCharacter => Trouble.nullCharacter.text
  | .noRoom limit => Schedule.noRoomMessage limit

/-- **Work on what a batch shares**, which may end the batch. -/
abbrev Work (α : Type) := ExceptT Fault (StateM Progress) α

/-- The speaker for what becomes of files and projects. -/
def speaker : String := "polyast.processing.orchestrator"

/-- An entry for the journal. -/
def tell (e : Journal.Entry) : Work Unit :=
  modify fun p => { p with entries := p.entries ++ [e] }

/-! ## One file -/

/-- A source is about to be read. -/
def beginReading (s : Setting) : Work Unit :=
  modify fun p =>
    { p with cancelled := p.cancelled || s.cancelledAt p.reads, reads := p.reads + 1 }

/-- The parsers of grammars are set up, each of them once, until one is
missing. -/
def setUpParsers (s : Setting) : List String → Work Unit
  | [] => return
  | g :: rest => do
    if s.grammars.available g then
      if !(← get).parsers.contains g then
        modify fun p => { p with parsers := g :: p.parsers }
        tell (.debug "polyast.analyzers.tree_sitter"
          ("Initialized tree-sitter parser for " ++ g))
      setUpParsers s rest

/-- What is told of a tree with errors in it. -/
def recovered (a : Analyzer) (path : String) (built : Built) : List Journal.Entry :=
  match built.share with
  | none => []
  | some share =>
    let message :=
      "Recovered " ++ toString built.errorCount ++ " syntax error(s) in " ++ path
    match a.method with
    | .template => [.debug "polyast.analyzers.razor" message]
    | _ =>
      [.debug "polyast.analyzers.tree_sitter" (message ++ " (" ++ Number.percent share ++ ")")]

/-- What is told of a report. -/
def analysed (r : FileReport) : Journal.Entry :=
  .debug speaker
    ("Analyzed " ++ r.sourcePath ++ " (" ++ r.language ++ ", " ++ toString r.root.nodeCount
      ++ " nodes)")

/-- A failure that is the result of a job. -/
def fail (path errorType message : String) : Work FileOutcome := do
  tell (.warning speaker (errorType ++ " for " ++ path ++ ": " ++ message))
  return .failed ⟨path, errorType, message⟩

/-- The outcome of a file whose text has been read. -/
def analyseText (s : Setting) (a : Analyzer) (path text : String) : Work FileOutcome := do
  setUpParsers s ((a.requests (Bytes.ofText text)).map (·.1))
  match a.analyse s.grammars.parse s.now path text with
  | .error f@(.unparsable ..) => fail path "ParseError" f.message
  | .error f => throw (.analysis f)
  | .ok (report, built) =>
    (recovered a path built).forM tell
    tell (analysed report)
    return .analysed report

/-- **What becomes of a file.** -/
def analysePath (s : Setting) (path : Path) : Work FileOutcome := do
  match s.registry.resolve path.text with
  | .error f => fail path.text "NotSupportedError" f.message
  | .ok a =>
    beginReading s
    match s.files.readText path with
    | .error (.file ⟨_, .nullCharacter⟩) => throw .nullCharacter
    | .error f => fail path.text "IOError" f.message
    | .ok text => analyseText s a path.text text

/-- The result for the file at a place of the batch. -/
def analyseFile (s : Setting) (index : Nat) (path : Path) : Work FileResult := do
  return ⟨index, path.text, ← analysePath s path⟩

/-! ## Many files -/

/-- The jobs for some files. -/
def jobs (s : Setting) (paths : List Path) : List (Job Progress Fault FileResult) :=
  paths.zipIdx.map fun (path, i) => (analyseFile s i path).run

/-- A run's results, as work. -/
def ofRun (r : Except Fault (Schedule.Run FileResult) × Progress) :
    Work (Schedule.Run FileResult) := do
  set r.2
  match r.1 with
  | .ok run => return run
  | .error fault => throw fault

/-- **The run over some files.** -/
def runFiles (s : Setting) (paths : List Path) : Work (Schedule.Run FileResult) := do
  let progress ← get
  match s.options.mode with
  | .sequential => ofRun (Schedule.sequential Progress.cancelled (jobs s paths) progress)
  | .concurrent =>
    let (r, progress) :=
      Schedule.bounded s.options.limit Progress.cancelled s.completion (jobs s paths) progress
    let run ← ofRun (r.mapError fun
      | .noRoom limit => .noRoom limit
      | .job fault => fault, progress)
    (run.entries paths.length).forM tell
    return run

/-- **The results for some files in their order.** Those that were never begun
are missing. -/
def analyseFiles (s : Setting) (paths : List Path) : Work (List FileResult) := do
  return (← runFiles s paths).ordered

end SyntaxForest.Batch
