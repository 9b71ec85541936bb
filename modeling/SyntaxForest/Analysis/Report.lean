import SyntaxForest.Inventory.Asynchrony
import SyntaxForest.Inventory.Declarations
import SyntaxForest.Tree.Record

/-!
# Reports

What an analysis yields: for a file its tree and its inventories, for a project
the reports and failures of its files, and for a solution those of its projects.
Reports are stamped with the moment of their making, which does not count when
two of them are compared.
-/

namespace SyntaxForest

/-- **The report on a file.** -/
structure FileReport where
  sourcePath : String
  language : String
  root : Tree
  generatedAt : Moment
  classes : List String := []
  interfaces : List String := []
  methods : List String := []
  enums : List String := []
  properties : List String := []
  classDetails : List TypeSummary := []
  asyncMethods : List AsyncMethod := []
  testClasses : List TypeSummary := []
  errorCount : Int := 0
  deriving Repr, Inhabited

namespace FileReport

/-- Whether errors were recovered from. -/
def hasErrors (r : FileReport) : Bool := 0 < r.errorCount

/-- Everything in a report but its tree and its stamp. -/
def summary (r : FileReport) : List (String × Value) :=
  [("source_path", .text r.sourcePath),
    ("language", .text r.language),
    ("classes", .texts r.classes),
    ("interfaces", .texts r.interfaces),
    ("methods", .texts r.methods),
    ("enums", .texts r.enums),
    ("properties", .texts r.properties),
    ("class_details", .list (r.classDetails.map TypeSummary.toValue)),
    ("async_patterns", .list (r.asyncMethods.map AsyncMethod.toValue)),
    ("test_classes", .list (r.testClasses.map TypeSummary.toValue)),
    ("error_count", .int r.errorCount)]

/-- **A report as a record**, with its stamp or without. -/
def toValue (r : FileReport) (stamped : Bool) : Value :=
  .record (r.summary ++ [("root", r.root.toValue)]
    ++ if stamped then [("generated_at", .text r.generatedAt.inUniversalTime.stamp)] else [])

/-- **Whether two reports say the same**, whenever they were made. A report that is
compared with itself shares its data with itself. -/
def sameContent (shared : Bool) (a b : FileReport) : Bool :=
  a.root.equal shared b.root && (Value.record a.summary).same (.record b.summary)

end FileReport

/-- **A file that was not analysed.** -/
structure FileFailure where
  sourcePath : String
  /-- The kind of failure: that of parsing, of support, or of reading. -/
  errorType : String
  message : String
  deriving DecidableEq, Repr, Inhabited

/-- A failure as a record. -/
def FileFailure.toValue (f : FileFailure) : Value :=
  .record [("source_path", .text f.sourcePath), ("error_type", .text f.errorType),
    ("message", .text f.message)]

/-- **What became of a file**: it was analysed or it failed. -/
inductive FileOutcome
  | analysed (report : FileReport)
  | failed (failure : FileFailure)
  deriving Repr, Inhabited

namespace FileOutcome

/-- The report, if there is one. -/
def report? : FileOutcome → Option FileReport
  | .analysed r => some r
  | .failed _ => none

/-- The failure, if there is one. -/
def failure? : FileOutcome → Option FileFailure
  | .analysed _ => none
  | .failed f => some f

/-- The outcome that consists of exactly one of a report and a failure. -/
def ofParts? : Option FileReport → Option FileFailure → Option FileOutcome
  | some r, none => some (.analysed r)
  | none, some f => some (.failed f)
  | _, _ => none

end FileOutcome

/-- The wording for parts that are not exactly one. -/
def FileOutcome.partsMessage : String := "FileResult needs exactly one of analysis or failure"

/-- **One file of a batch**: its place, its path and what became of it. -/
structure FileResult where
  index : Nat
  sourcePath : String
  outcome : FileOutcome
  deriving Repr, Inhabited

/-! ## Projects -/

/-- **The report on a project.** -/
structure ProjectReport where
  projectPath : String
  projectName : String
  generatedAt : Moment
  files : List FileReport := []
  failures : List FileFailure := []
  dependencies : List String := []
  testClasses : List TypeSummary := []
  asyncMethods : List AsyncMethod := []
  cancelled : Bool := false
  deriving Repr, Inhabited

namespace ProjectReport

/-- How many files were processed. -/
def fileCount (p : ProjectReport) : Nat := p.files.length + p.failures.length

/-- Whether a file failed. -/
def hasFailures (p : ProjectReport) : Bool := !p.failures.isEmpty

/-- The report as a record. -/
def toValue (p : ProjectReport) : Value :=
  .record
    [("project_path", .text p.projectPath),
      ("project_name", .text p.projectName),
      ("generated_at", .text p.generatedAt.inUniversalTime.stamp),
      ("files", .list (p.files.map (·.toValue true))),
      ("failures", .list (p.failures.map FileFailure.toValue)),
      ("dependencies", .texts p.dependencies),
      ("test_classes", .list (p.testClasses.map TypeSummary.toValue)),
      ("async_patterns", .list (p.asyncMethods.map AsyncMethod.toValue)),
      ("cancelled", .bool p.cancelled)]

/-- **The report on the results of a project's files**, in the order of the
results. -/
def ofOutcomes (path name : String) (dependencies : List String) (moment : Moment)
    (outcomes : List FileOutcome) (cancelled : Bool) : ProjectReport :=
  let files := outcomes.filterMap FileOutcome.report?
  { projectPath := path
    projectName := name
    generatedAt := moment
    files
    failures := outcomes.filterMap FileOutcome.failure?
    dependencies
    testClasses := files.flatMap (·.testClasses)
    asyncMethods := files.flatMap (·.asyncMethods)
    cancelled }

end ProjectReport

/-! ## Solutions -/

/-- A project whose manifest could not be read. -/
structure ProjectFailure where
  projectPath : String
  message : String
  deriving DecidableEq, Repr, Inhabited

/-- The failure as a record. -/
def ProjectFailure.toValue (f : ProjectFailure) : Value :=
  .record [("project_path", .text f.projectPath), ("message", .text f.message)]

/-- **The report on a solution.** -/
structure SolutionReport where
  solutionPath : String
  solutionName : String
  generatedAt : Moment
  projects : List ProjectReport := []
  failures : List ProjectFailure := []
  formatVersion : Option String := none
  visualStudioVersion : Option String := none
  cancelled : Bool := false
  deriving Repr, Inhabited

namespace SolutionReport

/-- Whether a project or a file failed. -/
def hasFailures (s : SolutionReport) : Bool :=
  !s.failures.isEmpty || s.projects.any (·.hasFailures)

/-- The report as a record. -/
def toValue (s : SolutionReport) : Value :=
  .record
    [("solution_path", .text s.solutionPath),
      ("solution_name", .text s.solutionName),
      ("generated_at", .text s.generatedAt.inUniversalTime.stamp),
      ("format_version", .optionText s.formatVersion),
      ("visual_studio_version", .optionText s.visualStudioVersion),
      ("projects", .list (s.projects.map ProjectReport.toValue)),
      ("failures", .list (s.failures.map ProjectFailure.toValue)),
      ("cancelled", .bool s.cancelled)]

end SolutionReport

end SyntaxForest
