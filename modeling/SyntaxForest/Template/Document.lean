import SyntaxForest.Analysis.Failure
import SyntaxForest.Dialect.CSharp
import SyntaxForest.Template.Insertion

/-!
# The tree of a template

A template's tree is that of its markup, spanning the whole file, with the node
of every construct inserted where it stands. A construct's node has the parsed
code of its parts below it. Errors in markup and code are added up and weighed
against the whole template.
-/

namespace SyntaxForest

/-! ## Markup

Elements, tags and attributes tell their names.
-/

namespace Dialect.Markup

open CSharp (textValue)

/-- The name of the first of an element's tags that has one. -/
def elementName? (t : ParseTree) (src : Bytes) : Option String :=
  (t.childrenOfKind ["start_tag", "self_closing_tag"]).findSome? (·.childText? "tag_name" src)

/-- **What a node of markup tells.** -/
def describe : Describe := fun t src =>
  if ["element", "script_element", "style_element"].contains t.kind then
    [("name", textValue (elementName? t src))]
  else if ["start_tag", "end_tag", "self_closing_tag"].contains t.kind then
    [("name", textValue (t.childText? "tag_name" src))]
  else if t.kind = "attribute" then [("name", textValue (t.childText? "attribute_name" src))]
  else []

end Dialect.Markup

namespace Template

open Analysis

/-- **A parser as the analysis uses it**: the tree of a source in a grammar, or
why there is none. -/
abbrev Parse := String → Bytes → Except Failure ParseTree

/-- The grammar of the markup. -/
def markupGrammar : String := "html"

/-- The grammar of the code. -/
def codeGrammar : String := "csharp"

/-- The category of a template's root. -/
def rootKind : String := "TemplateDocument"

/-- The category of the root of parsed code. -/
def codeRootKind : String := "CompilationUnit"

/-! ## Code -/

/-- Where a part of the code stands in the file, seen from the text that is
parsed. -/
def CodeView.shift (v : CodeView) (lines : LineIndex) : Shift :=
  let (line, column) := lines.position v.part.start
  ⟨v.part.start - v.lead.size, line - 1, column - v.lead.size⟩

/-- **The code inside a wrapper**: the children of its body. A tree without the
wrapper is taken as it is. -/
def wrappedMembers (wrapper : Option Wrapper) (root : Tree) : List Tree :=
  match wrapper with
  | none => root.children
  | some w =>
    match (root.walk.find? (·.kind == w.outer)).bind (·.firstChild? w.body) with
    | some body => body.children
    | none => root.children

/-- The parsed code of one part: its nodes, and how many errors of which weight
it has. -/
def parseCode (parse : Parse) (lines : LineIndex) (v : CodeView) :
    Except Failure (List Tree × Nat × Nat) := do
  let t ← parse codeGrammar v.text
  let c := t.convert v.text Dialect.CSharp.describe (v.shift lines) (some codeRootKind)
  return (wrappedMembers v.wrapper c.root, c.errorCount, c.errorBytes)

/-- **The node of a construct**, and the errors in its code. -/
def segmentNode (parse : Parse) (src : Bytes) (lines : LineIndex) (s : Segment) :
    Except Failure (Tree × Nat × Nat) := do
  let parts ← (codeViews src s).mapM (parseCode parse lines)
  let described := s.construct.properties.map fun (k, v) => (k, v.map Scalar.text)
  let props := described.foldl (fun props (k, v) => Properties.set? props k v)
    (spanProperties lines ⟨s.start, s.stop⟩)
  let (count, bytes) := parts.foldl (fun (count, bytes) p => (count + p.2.1, bytes + p.2.2)) (0, 0)
  return (.node s.construct.kind props (parts.flatMap (·.1)), count, bytes)

/-! ## The whole -/

/-- A tree whose root spans a whole file. -/
def spanning (lines : LineIndex) (size : Nat) : Tree → Tree
  | .node kind props children =>
    .node kind (props.setAll (spanProperties lines ⟨0, size⟩)) children

/-- The nodes of constructs inserted one after another, and their errors. -/
def insertSegments (parse : Parse) (s : Source) :
    List Segment → Tree × Nat × Nat → Except Failure (Tree × Nat × Nat)
  | [], acc => .ok acc
  | segment :: rest, (root, count, bytes) => do
    let (node, c, b) ← segmentNode parse s.bytes s.lines segment
    let root ← (insert? s node root).mapError fun _ => Failure.outside
    insertSegments parse s rest (root, count + c, bytes + b)

/-- **The merged tree of a template**, the number of its errors and their
weight. -/
def merge (parse : Parse) (src : Bytes) (scanned : List Segment) :
    Except Failure (Tree × Nat × Nat) := do
  let lines := LineIndex.ofSource src
  let view := markupView src scanned
  let t ← parse markupGrammar view
  let c := t.convert src Dialect.Markup.describe {} (some rootKind)
  insertSegments parse ⟨src, view, lines⟩ (allSegments scanned)
    (spanning lines src.size c.root, c.errorCount, c.errorBytes)

/-- The sources that the analysis of a template has parsed, in order. -/
def requests (src : Bytes) (scanned : List Segment) : List (String × Bytes) :=
  (markupGrammar, markupView src scanned)
    :: (allSegments scanned).flatMap fun s =>
      (codeViews src s).map fun v => (codeGrammar, v.text)

end Template

end SyntaxForest
