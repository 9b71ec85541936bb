import SyntaxForest.Batch.Aggregate

/-!
# What is printed

Reports as people read them: a line for each file, a heading for each project
and solution, and the analyzers in the order in which they are tried.
-/

namespace SyntaxForest.CommandLine

open Analysis

/-- A number with what is counted. -/
def count (n : Nat) (what : String) : String := toString n ++ " " ++ what

/-- The line for a file's report. -/
def reportLine (r : FileReport) : String :=
  let errors := if r.hasErrors then ", " ++ toString r.errorCount ++ " recovered error(s)" else ""
  "  ✅ " ++ r.sourcePath ++ " [" ++ r.language ++ "] " ++ count r.classes.length "classes, "
    ++ count r.methods.length "methods, " ++ count r.asyncMethods.length "async" ++ errors

/-- The line for a file's failure. -/
def failureLine (f : FileFailure) : String :=
  "  ❌ " ++ f.sourcePath ++ ": " ++ f.errorType ++ ": " ++ f.message

/-- **The line for a file.** -/
def outcomeLine : FileOutcome → String
  | .analysed r => reportLine r
  | .failed f => failureLine f

/-- A line that lists texts, unless there are none. -/
def listLine (heading : String) : List String → List String
  | [] => []
  | items => ["  " ++ heading ++ ": " ++ Text.join ", " items]

/-- **The lines for a project.** -/
def projectLines (p : ProjectReport) : List String :=
  ["",
    "📦 " ++ p.projectName ++ ": " ++ count p.files.length "analyzed, "
      ++ count p.failures.length "failed"]
    ++ p.files.map reportLine
    ++ p.failures.map failureLine
    ++ listLine "Dependencies" p.dependencies
    ++ listLine "Test classes" (p.testClasses.map (·.name))
    ++ if p.cancelled then ["  ⚠️  Cancelled before all files were scheduled"] else []

/-- **The lines for a solution.** -/
def solutionLines (s : SolutionReport) : List String :=
  ["🧩 Solution " ++ s.solutionName ++ " (" ++ count s.projects.length "projects)"]
    ++ s.projects.flatMap projectLines
    ++ s.failures.map fun f => "  ❌ " ++ f.projectPath ++ ": " ++ f.message

/-- The lines for a project or a solution. -/
def reportLines : Batch.Report → List String
  | .project p => projectLines p
  | .solution s => solutionLines s

/-- The line for the analyzer at a place. -/
def analyzerLine (a : Analyzer) (place : Nat) : String :=
  let c := a.capabilities
  let projects := Text.join ", " (Text.sortedSet c.projectExtensions)
  toString place ++ ". " ++ c.name ++ " (" ++ c.language ++ "): "
    ++ Text.join ", " (Text.sortedSet c.fileExtensions) ++ " -> " ++ c.rootKind
    ++ " [projects: " ++ (if projects = "" then "-" else projects) ++ "]"

/-- **The lines that list analyzers.** -/
def analyzerLines (r : Registry) : List String :=
  (r.analyzers.zipIdx 1).map fun (a, place) => analyzerLine a place

/-- Lines as a text. -/
def textOf (lines : List String) : String := String.join (lines.map (· ++ "\n"))

/-- A value as the text that is printed for it. -/
def jsonOf (v : Value) : String :=
  match v.indented 2 with
  | .ok s => s ++ "\n"
  | .error _ => ""

end SyntaxForest.CommandLine
