import SyntaxForest.Analysis.Analyzer

/-!
# The registry of analyzers

Analyzers are kept in the order of their registration, and a path goes to the
first that claims it. No language is registered twice, and a frozen registry
takes no more.
-/

namespace SyntaxForest.Analysis

/-- **A registry.** -/
structure Registry where
  analyzers : List Analyzer
  frozen : Bool

namespace Registry

/-- Why a registration is refused. -/
inductive Refusal
  | frozen
  | duplicate (language : String)
  deriving DecidableEq, Repr

/-- The wording of a refusal. -/
def Refusal.message : Refusal → String
  | .frozen => "Analyzer registry is frozen; register analyzers at startup"
  | .duplicate language => "Analyzer for '" ++ language ++ "' already registered"

/-- A registry without analyzers. -/
def empty : Registry := ⟨[], false⟩

/-- **Registering an analyzer**, behind those that are there. -/
def register (r : Registry) (a : Analyzer) : Except Refusal Registry :=
  if r.frozen then .error .frozen
  else if r.analyzers.any (·.language == a.language) then .error (.duplicate a.language)
  else .ok { r with analyzers := r.analyzers ++ [a] }

/-- Registers analyzers one after another; the ones before a refusal stay. -/
def registerAll (r : Registry) : List Analyzer → Registry × Option Refusal
  | [] => (r, none)
  | a :: rest =>
    match r.register a with
    | .ok r => registerAll r rest
    | .error refusal => (r, some refusal)

/-- The analyzers of all dialects, in the order in which they are tried. -/
def dialects (tolerance : Tolerance) : List Analyzer :=
  [.csharp tolerance, .java tolerance, .razor tolerance]

/-- The registry of all dialects. -/
def standard (tolerance : Tolerance) : Registry := ⟨dialects tolerance, false⟩

/-- No more registrations. -/
def freeze (r : Registry) : Registry := { r with frozen := true }

/-! ## Resolution -/

/-- The analyzers that claim a path. -/
def candidates (r : Registry) (path : String) : List Analyzer :=
  r.analyzers.filter (·.capabilities.supportsFile path)

/-- Whether some analyzer claims a path. -/
def isSupported (r : Registry) (path : String) : Bool :=
  r.analyzers.any (·.capabilities.supportsFile path)

/-- Whether some analyzer claims a manifest. -/
def isProject (r : Registry) (path : String) : Bool :=
  r.analyzers.any (·.capabilities.supportsProject path)

/-- The suffixes that are taken, each once and in order. -/
def extensions (r : Registry) : List String :=
  Text.sortedSet (r.analyzers.flatMap (·.capabilities.fileExtensions))

/-- **The analyzer of a path**: the first that claims it. -/
def resolve (r : Registry) (path : String) : Except Failure Analyzer :=
  match r.analyzers.find? (·.capabilities.supportsFile path) with
  | some a => .ok a
  | none =>
    let suffix := (Path.ofText path).suffix
    .error (.notSupported path (.noAnalyzer (if suffix = "" then path else suffix) r.extensions))

/-- **The analyzer of a manifest**: the first that claims it. -/
def resolveProject (r : Registry) (path : String) : Except Failure Analyzer :=
  match r.analyzers.find? (·.capabilities.supportsProject path) with
  | some a => .ok a
  | none => .error (.notSupported path .noProjectAnalyzer)

/-- The languages, in the order of registration. -/
def languages (r : Registry) : List String := r.analyzers.map (·.language)

/-- The record that lists a registry. -/
def metadata (r : Registry) : Value :=
  .record [("frozen", .bool r.frozen), ("analyzers", .list (r.analyzers.map (·.metadata)))]

end Registry

end SyntaxForest.Analysis
