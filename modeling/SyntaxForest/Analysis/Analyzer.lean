import SyntaxForest.Analysis.Report
import SyntaxForest.Dialect.Java
import SyntaxForest.Files.Path
import SyntaxForest.Template.Document

/-!
# Analyzers

An analyzer takes the files of one dialect, told by their suffix, and makes a
report of each: it builds the file's tree, and draws the inventories from the
tree with the dialect's vocabulary.
-/

namespace SyntaxForest

open Number

namespace Analysis

/-- **What an analyzer handles.** -/
structure Capabilities where
  language : String
  /-- Suffixes of the files it takes, in small letters. -/
  fileExtensions : List String
  /-- Suffixes or names of the manifests of its projects. -/
  projectExtensions : List String := []
  /-- The category of the roots it builds. -/
  rootKind : String := ""
  name : String := ""
  description : String := ""
  deriving DecidableEq, Repr, Inhabited

namespace Capabilities

/-- Whether the files of a path are handled. -/
def supportsFile (c : Capabilities) (path : String) : Bool :=
  c.fileExtensions.contains (Text.lower (Path.ofText path).suffix)

/-- Whether a path is that of a manifest that is handled. -/
def supportsProject (c : Capabilities) (path : String) : Bool :=
  let p := Path.ofText path
  c.projectExtensions.contains (Text.lower p.suffix)
    || c.projectExtensions.contains (Text.lower p.name)

/-- The fields of the record that lists an analyzer. -/
def fields (c : Capabilities) : List (String × Value) :=
  [("name", .text (if c.name = "" then c.language else c.name)),
    ("language", .text c.language),
    ("description", .text c.description),
    ("file_extensions", .texts (Text.sortedSet c.fileExtensions)),
    ("project_extensions", .texts (Text.sortedSet c.projectExtensions)),
    ("root_type", .text c.rootKind)]

end Capabilities

/-- **A built tree**: the number of errors in it, and their share of the source
if there are any. -/
structure Built where
  root : Tree
  errorCount : Nat
  share : Option Binary64
  deriving Repr

/-- How a dialect builds trees. -/
inductive Method
  /-- The whole source is parsed in one grammar. -/
  | grammar (name : String) (describe : Describe)
  /-- The source is a template. -/
  | template
  /-- The source is not parsed: its root shows its size. -/
  | measure

/-- **An analyzer.** -/
structure Analyzer where
  capabilities : Capabilities
  vocabulary : Vocabulary
  method : Method
  tolerance : Tolerance

end Analysis

namespace Grammars

/-- The parser of a grammar, as the analysis uses it. -/
def parse (g : Grammars) : Template.Parse := fun grammar src =>
  match g.problem? grammar with
  | some problem => .error (.grammarUnavailable grammar problem)
  | none =>
    match g.tree? grammar src with
    | some t => .ok t
    | none => .error (.noParse grammar)

end Grammars

namespace Analysis

/-- **The judgement on the errors of a tree**: their share of the source has to be
allowed. -/
def judge (tolerance : Tolerance) (path whole : String) (src : Bytes) (root : Tree)
    (count bytes : Nat) : Except Failure Built :=
  if count = 0 then .ok ⟨root, 0, none⟩
  else
    let total := src.contentLength
    let share :=
      if total = 0 then Binary64.ofMagnitude false 0 else Binary64.ofRatio false bytes total
    if tolerance.allows share then .ok ⟨root, count, some share⟩
    else .error (.unparsable path (.tooManyErrors count share whole))

/-- The tree of a source in one grammar. -/
def buildParsed (parse : Template.Parse) (grammar : String) (describe : Describe)
    (rootKind : String) (tolerance : Tolerance) (path : String) (src : Bytes) :
    Except Failure Built := do
  let t ← parse grammar src
  if t.head.error then throw (.unparsable path .nothingRecognised)
  let c := t.convert src describe {} (some rootKind)
  judge tolerance path "source" src c.root c.errorCount c.errorBytes

/-- The constructs of a template, or why it cannot be scanned. -/
def scanTemplate (path : String) (src : Bytes) : Except Failure (List Template.Segment) :=
  (Template.scan src).mapError (Failure.ofFault path (LineIndex.ofSource src))

/-- The tree of a template. -/
def buildTemplate (parse : Template.Parse) (tolerance : Tolerance) (path : String)
    (src : Bytes) : Except Failure Built := do
  let scanned ← scanTemplate path src
  let (root, count, bytes) ← Template.merge parse src scanned
  judge tolerance path "template" src root count bytes

namespace Analyzer

/-- The language of the files it takes. -/
def language (a : Analyzer) : String := a.capabilities.language

/-- **The tree of a source.** -/
def build (a : Analyzer) (parse : Template.Parse) (path : String) (src : Bytes) :
    Except Failure Built :=
  match a.method with
  | .grammar name describe =>
    buildParsed parse name describe a.capabilities.rootKind a.tolerance path src
  | .template => buildTemplate parse a.tolerance path src
  | .measure => .ok ⟨.node "Root" [("size", .nat src.size)] [], 0, none⟩

/-- The sources that are parsed to build a tree, in order. -/
def requests (a : Analyzer) (src : Bytes) : List (String × Bytes) :=
  match a.method with
  | .grammar name _ => [(name, src)]
  | .template =>
    match Template.scan src with
    | .ok scanned => Template.requests src scanned
    | .error _ => []
  | .measure => []

/-- The grammars that the analyzer needs. -/
def grammars (a : Analyzer) : List String :=
  match a.method with
  | .grammar name _ => [name]
  | .template => [Template.markupGrammar, Template.codeGrammar]
  | .measure => []

/-- **The report on a file**, given its text, and the tree that it is drawn
from. -/
def analyse (a : Analyzer) (parse : Template.Parse) (moment : Moment) (path text : String) :
    Except Failure (FileReport × Built) := do
  if !a.capabilities.supportsFile path then
    throw (.notSupported path (.wrongLanguage a.language))
  let built ← a.build parse path (Bytes.ofText text)
  let d := Declarations.ofTree a.vocabulary path built.root
  return (
    { sourcePath := path
      language := a.language
      root := built.root
      generatedAt := moment
      classes := d.classes
      interfaces := d.interfaces
      methods := d.methods
      enums := d.enums
      properties := d.properties
      classDetails := d.classDetails
      asyncMethods := asyncMethods a.vocabulary path built.root
      testClasses := testClasses a.vocabulary path built.root
      errorCount := built.errorCount },
    built)

/-- The record that lists an analyzer. -/
def metadata (a : Analyzer) : Value :=
  .record (a.capabilities.fields ++ [("max_error_ratio", a.tolerance.toValue)])

/-! ## The dialects -/

/-- The analyzer of C#. -/
def csharp (tolerance : Tolerance) : Analyzer where
  capabilities :=
    { language := "csharp"
      fileExtensions := [".cs"]
      projectExtensions := [".csproj"]
      rootKind := Template.codeRootKind
      name := "C#"
      description := "C# source files parsed with the tree-sitter csharp grammar" }
  vocabulary := .csharp
  method := .grammar "csharp" Dialect.CSharp.describe
  tolerance

/-- The analyzer of Java. -/
def java (tolerance : Tolerance) : Analyzer where
  capabilities :=
    { language := "java"
      fileExtensions := [".java"]
      projectExtensions := ["pom.xml"]
      rootKind := "Program"
      name := "Java"
      description := "Java source files parsed with the tree-sitter java grammar" }
  vocabulary := .java
  method := .grammar "java" Dialect.Java.describe
  tolerance

/-- The analyzer of Razor templates. They belong to the projects of C#. -/
def razor (tolerance : Tolerance) : Analyzer where
  capabilities :=
    { language := "razor"
      fileExtensions := [".cshtml", ".razor"]
      rootKind := Template.rootKind
      name := "Razor"
      description := "Razor templates: html markup with embedded C#" }
  vocabulary := .razor
  method := .template
  tolerance

end Analyzer

end Analysis

end SyntaxForest
