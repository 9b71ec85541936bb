import SyntaxForest.Bytes
import SyntaxForest.Text.Class
import SyntaxForest.Text.Utf8

/-!
# Constructs of a template

A template mixes markup with code. Each stretch of code that an `@` opens is a
*construct*: a comment, a block of code, a control statement with its bodies, an
expression, or a directive. Code may hold markup again, in *runs*, and a run may
hold constructs, so constructs nest.

`Segment.codeRanges` and the markup runs of a segment together are the segment's
range: what is not a run is code.
-/

namespace SyntaxForest.Template

/-- **A half-open range of offsets.** -/
structure Range where
  start : Nat
  stop : Nat
  deriving DecidableEq, Repr, Inhabited

/-- **What a construct is**, with the texts that it shows. -/
inductive Construct
  | comment (text : String)
  /-- A block of code: statements, or the members announced by `keyword`. -/
  | codeBlock (keyword : Option String)
  | explicitExpression (expression : String)
  | implicitExpression (expression : String)
  | directive (name : String) (value : Option String)
  | control (keyword : String) (condition : Option String)
  /-- A named section, whose body is markup. -/
  | sectionBlock (name : Option String)
  deriving DecidableEq, Repr, Inhabited

namespace Construct

/-- The category of the node that stands for the construct. -/
def kind : Construct → String
  | .comment _ => "RazorComment"
  | .codeBlock _ => "CodeBlock"
  | .explicitExpression _ => "ExplicitExpression"
  | .implicitExpression _ => "ImplicitExpression"
  | .directive _ _ => "RazorDirective"
  | .control _ _ | .sectionBlock _ => "ControlBlock"

/-- The properties of the node that stands for the construct; one without a value
is named but not set. -/
def properties : Construct → List (String × Option String)
  | .comment text => [("text", some text)]
  | .codeBlock none => []
  | .codeBlock (some keyword) => [("keyword", some keyword)]
  | .explicitExpression e | .implicitExpression e => [("expression", some e)]
  | .directive name value => [("name", some name), ("value", value)]
  | .control keyword none => [("keyword", some keyword)]
  | .control keyword (some condition) =>
    [("keyword", some keyword), ("condition", some condition)]
  | .sectionBlock name => [("keyword", some "section"), ("condition", name)]

/-- The word that opens the construct, if it is a block or a control
statement. -/
def keyword? : Construct → Option String
  | .codeBlock keyword => keyword
  | .control keyword _ => some keyword
  | .sectionBlock _ => some "section"
  | _ => none

end Construct

/-- **A construct and where it stands.** -/
structure Segment where
  construct : Construct
  start : Nat
  stop : Nat
  /-- The range of a code block's code. -/
  content : Option Range
  /-- The ranges of a control statement's bodies. -/
  bodies : List Range
  /-- The markup runs inside the content or the bodies, in source order. -/
  markup : List Range
  /-- The constructs inside the markup runs. -/
  children : List Segment
  deriving Repr, Inhabited

namespace Segment

/-- A segment without content, bodies, markup and children. -/
def simple (construct : Construct) (start stop : Nat) : Segment :=
  ⟨construct, start, stop, none, [], [], []⟩

/-- The gaps before, between and after runs, from `cursor` to `stop`. -/
def gaps (cursor stop : Nat) : List Range → List Range
  | [] => if cursor < stop then [⟨cursor, stop⟩] else []
  | run :: rest =>
    (if cursor < run.start then [⟨cursor, run.start⟩] else []) ++ gaps run.stop stop rest

/-- **The parts of a segment that are code**: what its markup runs leave. -/
def codeRanges (s : Segment) : List Range := gaps s.start s.stop s.markup

/-- The ranges that are parsed as code: the content of a block, or each body of a
control statement. The body of a named section is markup. -/
def codeParts (s : Segment) : List Range :=
  match s.content with
  | some r => [r]
  | none => if s.construct.keyword? = some "section" then [] else s.bodies

mutual

/-- The number of segments in a segment and below it. -/
def size : Segment → Nat
  | ⟨_, _, _, _, _, _, children⟩ => 1 + sizeAll children

/-- The number of segments in several and below them. -/
def sizeAll : List Segment → Nat
  | [] => 0
  | s :: rest => size s + sizeAll rest

end

@[simp] theorem sizeAll_append (a b : List Segment) :
    sizeAll (a ++ b) = sizeAll a + sizeAll b := by
  induction a with
  | nil => simp [sizeAll]
  | cons s rest ih => simp [sizeAll, ih]; omega

theorem size_eq (s : Segment) : s.size = 1 + sizeAll s.children := by
  cases s; simp [size]

/-- Segments in pre-order by a work list: the first is taken, and its children
are put in front of those that wait. -/
def flattenFrom : List Segment → List Segment
  | [] => []
  | s :: waiting => s :: flattenFrom (s.children ++ waiting)
termination_by segments => sizeAll segments
decreasing_by simp [sizeAll, size_eq s]

/-- **A segment and the segments nested in it**, in pre-order. -/
def flatten (s : Segment) : List Segment := flattenFrom [s]

end Segment

end SyntaxForest.Template
