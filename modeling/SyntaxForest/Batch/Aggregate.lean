import SyntaxForest.Batch.Work

/-!
# Projects, solutions and directories

A project is the run over its manifest's files. A solution is one run over the
files of all its projects, put in a row and dealt out again by their places, so
that one limit holds for all of them. A directory is analysed as the first
solution in it, else as its first project, else as the sources below it.
-/

namespace SyntaxForest.Batch

open Analysis

/-- The outcomes of results. -/
def outcomes (results : List FileResult) : List FileOutcome := results.map (·.outcome)

/-! ## Projects -/

/-- Reads the manifest of a project, unless something of the system is in the way. -/
def readProject (s : Setting) (path : Path) : Except Manifest.Fault ProjectManifest :=
  match s.obstacle path with
  | some fault => .error fault
  | none => Manifest.readProject s.files s.registry.extensions s.options.excluded path

/-- The report on a project with the results for its files. -/
def projectReport (now : Moment) (m : ProjectManifest) (results : List FileResult)
    (cancelled : Bool) : ProjectReport :=
  .ofOutcomes m.path.text m.name m.dependencies now (outcomes results) cancelled

/-- **The report on a project.** -/
def analyseProject (s : Setting) (path : Path) : Work ProjectReport := do
  match readProject s path with
  | .error fault => throw (.manifest fault)
  | .ok m =>
    tell m.entry
    tell (.info speaker
      ("Analyzing project " ++ m.name ++ " (" ++ toString m.files.length ++ " files)"))
    let run ← runFiles s m.files
    return projectReport s.now m run.ordered run.cancelled

/-! ## Solutions -/

/-- The manifests of a solution's members, and the members whose manifests are
refused. -/
def readMembers (s : Setting) :
    List SolutionMember → Work (List ProjectManifest × List ProjectFailure)
  | [] => return ([], [])
  | member :: rest => do
    match readProject s member.path with
    | .ok m =>
      tell m.entry
      let (manifests, failures) ← readMembers s rest
      return (m :: manifests, failures)
    | .error fault@(.refused ..) =>
      tell (.warning speaker ("Skipping project " ++ member.name ++ ": " ++ fault.message))
      let (manifests, failures) ← readMembers s rest
      return (manifests, ⟨member.path.text, fault.message⟩ :: failures)
    | .error fault => throw (.manifest fault)

/-- For each file of some projects, put in a row, the place of its project. -/
def owners (manifests : List ProjectManifest) : List Nat :=
  manifests.zipIdx.flatMap fun (m, owner) => List.replicate m.files.length owner

/-- **Results dealt out to the projects** that own their files. A project is
cancelled if some of its files have no result. -/
def dealOut (now : Moment) (results : List FileResult) (manifests : List ProjectManifest) :
    List ProjectReport :=
  let owners := owners manifests
  manifests.zipIdx.map fun (m, owner) =>
    let own := results.filter fun r => owners[r.index]? == some owner
    projectReport now m own (own.length < m.files.length)

/-- **The report on a solution.** -/
def analyseSolution (s : Setting) (path : Path) : Work SolutionReport := do
  match Manifest.readSolution s.files path with
  | .error fault => throw (.manifest fault)
  | .ok solution =>
    let (manifests, failures) ← readMembers s solution.members
    let paths := manifests.flatMap (·.files)
    tell (.info speaker
      ("Analyzing solution " ++ solution.name ++ " (" ++ toString manifests.length
        ++ " projects, " ++ toString paths.length ++ " files)"))
    let run ← runFiles s paths
    return {
      solutionPath := solution.path.text
      solutionName := solution.name
      generatedAt := s.now
      projects := dealOut s.now run.ordered manifests
      failures
      formatVersion := solution.formatVersion
      visualStudioVersion := solution.studioVersion
      cancelled := run.cancelled }

/-! ## Directories -/

/-- The report on a project or on a solution. -/
inductive Report
  | project (report : ProjectReport)
  | solution (report : SolutionReport)

/-- Whether something failed. -/
def Report.hasFailures : Report → Bool
  | .project r => r.hasFailures
  | .solution r => r.hasFailures

/-- The report as a record. -/
def Report.toValue : Report → Value
  | .project r => r.toValue
  | .solution r => r.toValue

/-- The files directly in a directory, in the order of their names. -/
def filesIn (s : Setting) (directory : Path) : Except Fault (List Path) :=
  match s.files.find? directory with
  | .error trouble => .error (.directory ⟨directory, trouble⟩)
  | .ok (.file _) => .error (.directory ⟨directory, .notDirectory⟩)
  | .ok (.directory es) =>
    let names := (es.filter fun e => !e.2.isDirectory).map (·.1)
    .ok ((Text.sorted names).map fun n => { directory with names := directory.names ++ [n] })

/-- Whether a path is that of a solution, by its suffix. -/
def isSolutionPath (path : Path) : Bool := Text.lower path.suffix == ".sln"

/-- The report on the sources below a directory that no manifest describes. -/
def analyseSources (s : Setting) (directory : Path) : Work ProjectReport := do
  let files := s.files.discover directory s.registry.extensions s.options.excluded
  tell (.info speaker
    ("No manifest in " ++ directory.text ++ "; analyzing " ++ toString files.length
      ++ " discovered files"))
  let run ← runFiles s files
  return .ofOutcomes directory.text directory.name [] s.now (outcomes run.ordered)
    run.cancelled

/-- **The report on a directory.** -/
def analyseDirectory (s : Setting) (path : Path) : Work Report := do
  match Manifest.resolve s.files path with
  | .error _ => throw .nullCharacter
  | .ok directory =>
    match filesIn s directory with
    | .error fault => throw fault
    | .ok files =>
      match files.find? isSolutionPath, files.find? (s.registry.isProject ·.text) with
      | some p, _ =>
        tell (.debug speaker ("Using solution " ++ p.name))
        return .solution (← analyseSolution s p)
      | none, some p =>
        tell (.debug speaker ("Using project " ++ p.name))
        return .project (← analyseProject s p)
      | none, none => return .project (← analyseSources s directory)

end SyntaxForest.Batch
