import SyntaxForest.Bytes
import SyntaxForest.Template.View
import SyntaxForest.Tree

/-!
# Inserting code into markup

The node of a construct is put into the markup tree where its span lies: below
the deepest node whose span contains it, among that node's children in the order
of their starts. Children that lie inside the new span move below the new node,
each to its own deepest place there, and a text leaf that the new span overlaps
is cut at its ends.
-/

namespace SyntaxForest.Template

/-- The span of a node, in offsets. One that was not recorded is empty. -/
structure Span where
  start : Int
  stop : Int
  deriving DecidableEq, Repr

namespace Span

/-- The whole number that a property holds; anything else counts as zero. -/
def number : Option Scalar → Int
  | some (.int i) => i
  | some (.bool true) => 1
  | _ => 0

/-- The span that a node records. -/
def ofTree (t : Tree) : Span :=
  let start := number (t.get? "span_start")
  ⟨start, start + number (t.get? "span_length")⟩

/-- Whether a span contains another. -/
def contains (outer inner : Span) : Bool := outer.start ≤ inner.start && inner.stop ≤ outer.stop

/-- Whether two spans have something in common. -/
def overlaps (a b : Span) : Bool := a.start < b.stop && b.start < a.stop

end Span

/-- **A template's text**: its source, its markup view and its lines. -/
structure Source where
  bytes : Bytes
  view : Bytes
  lines : LineIndex
  deriving Repr

/-- A text leaf. It contains nothing: nodes are put beside it. -/
def isTextLeaf (t : Tree) : Bool := t.kind == "Text" && t.children.isEmpty

/-- Whether a node is one to descend into. -/
def isContainer (inner : Span) (t : Tree) : Bool :=
  !isTextLeaf t && (Span.ofTree t).contains inner

/-! ## Positions -/

/-- The properties of a span in a file. -/
def spanProperties (lines : LineIndex) (span : Span) : List (String × Scalar) :=
  let (startLine, startColumn) := lines.position span.start
  let (endLine, endColumn) := lines.position span.stop
  [("span_start", .int span.start), ("span_length", .int (span.stop - span.start)),
    ("start_line", .int startLine), ("start_column", .int startColumn),
    ("end_line", .int endLine), ("end_column", .int endColumn)]

/-! ## Cutting text -/

/-- Past the blanks of the view, from `i` up to `stop`. -/
def pastBlanks (view : Bytes) (i stop : Nat) : Nat :=
  if i < stop then
    if (view[i]?).any Bytes.isBlank then pastBlanks view (i + 1) stop else i
  else i
termination_by stop - i

/-- Back over the blanks of the view before `n`, down to `low`. -/
def beforeBlanks (view : Bytes) (low : Nat) : Nat → Nat
  | 0 => 0
  | n + 1 =>
    if low < n + 1 ∧ (view[n]?).any Bytes.isBlank then beforeBlanks view low n else n + 1

/-- The text leaf of a range, without the blanks at its ends; none if it is all
blank. -/
def piece? (s : Source) (start stop : Int) : Option Tree :=
  let start' := pastBlanks s.view start.toNat stop.toNat
  let stop' := beforeBlanks s.view start' stop.toNat
  if start' < stop' then
    some (.node "Text"
      (spanProperties s.lines ⟨start', stop'⟩
        ++ [("text", .text (Lexical.textOf s.bytes start' stop'))]) [])
  else none

/-- **A text range cut at the ends of another span**: the pieces before, inside
and after it. -/
def cutText (s : Source) (text cut : Span) : List Tree :=
  [piece? s text.start (min text.stop cut.start),
    piece? s (max text.start cut.start) (min text.stop cut.stop),
    piece? s (max text.start cut.stop) text.stop].filterMap id

/-- The node itself, or the pieces of a text leaf that is overlapped. -/
def cutAt (s : Source) (cut : Span) (t : Tree) : List Tree :=
  let span := Span.ofTree t
  if isTextLeaf t && span.overlaps cut then cutText s span cut else [t]

/-! ## Placing and inserting -/

/-- A node put before the first that starts at or after its start. -/
def insertByStart (t : Tree) : List Tree → List Tree
  | [] => [t]
  | u :: rest =>
    if (Span.ofTree t).start ≤ (Span.ofTree u).start then t :: u :: rest
    else u :: insertByStart t rest

mutual

/-- **A node put below another** at the deepest place that contains it. -/
def place (t : Tree) : Tree → Tree
  | .node kind props children =>
    .node kind props ((placeBelow? t children).getD (insertByStart t children))

/-- The node put below the first of several that contains it, if one does. -/
def placeBelow? (t : Tree) : List Tree → Option (List Tree)
  | [] => none
  | u :: rest =>
    if isContainer (Span.ofTree t) u then some (place t u :: rest)
    else (placeBelow? t rest).map (u :: ·)

end

/-- **A node put among siblings.** Overlapped text is cut, what lies inside the
node's span moves below the node, and the node stands before the first of the
others that starts at or after its start. -/
def insertAmong (s : Source) (t : Tree) (siblings : List Tree) : List Tree :=
  let span := Span.ofTree t
  let cut := siblings.flatMap (cutAt s span)
  let inside := cut.filter fun u => span.contains (Span.ofTree u)
  let outside := cut.filter fun u => !span.contains (Span.ofTree u)
  let whole := inside.foldl (fun t u => place u t) t
  let before := outside.takeWhile fun u => (Span.ofTree u).start < span.start
  let after := outside.dropWhile fun u => (Span.ofTree u).start < span.start
  before ++ whole :: after

mutual

/-- **A node inserted into a tree.** -/
def insert (s : Source) (t : Tree) : Tree → Tree
  | .node kind props children =>
    .node kind props ((insertBelow? s t children).getD (insertAmong s t children))

/-- The node inserted into the first of several that contains it, if one does. -/
def insertBelow? (s : Source) (t : Tree) : List Tree → Option (List Tree)
  | [] => none
  | u :: rest =>
    if isContainer (Span.ofTree t) u then some (insert s t u :: rest)
    else (insertBelow? s t rest).map (u :: ·)

end

/-! ## Text beyond the source -/

/-- Whether a node is a text leaf that a cut would read beyond the source. -/
def cutsOutside (s : Source) (cut : Span) (t : Tree) : Bool :=
  let span := Span.ofTree t
  isTextLeaf t && span.overlaps cut && (s.view.size : Int) < span.stop

mutual

/-- Whether inserting a node would read beyond the source. -/
def overruns (s : Source) (cut : Span) : Tree → Bool
  | .node _ _ children =>
    (overrunsBelow? s cut children).getD (children.any (cutsOutside s cut))

/-- Whether it would below the first of several that contains the span. -/
def overrunsBelow? (s : Source) (cut : Span) : List Tree → Option Bool
  | [] => none
  | u :: rest =>
    if isContainer cut u then some (overruns s cut u) else overrunsBelow? s cut rest

end

/-- **Inserting with a check** that no text beyond the source has to be cut. -/
def insert? (s : Source) (t root : Tree) : Scan Tree :=
  if overruns s (Span.ofTree t) root then .error (.outside s.view.size)
  else .ok (insert s t root)

end SyntaxForest.Template
