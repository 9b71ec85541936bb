import SyntaxForest.Template.Scanner

/-!
# Views of a template

The markup and each part of the code are parsed on their own, each from a view
of the template in which everything else is blanked. A view keeps every newline,
so lines and columns in it are those of the template.

A part of the code that is no sequence of statements is wrapped before it is
parsed: members in a class, the sections of a switch in a switch statement.
-/

namespace SyntaxForest.Template

namespace Range

/-- Whether an offset lies in a range. -/
def has (r : Range) (i : Nat) : Bool := r.start ≤ i && i < r.stop

/-- Whether a range lies inside another. -/
def within (r outer : Range) : Bool := outer.start ≤ r.start && r.stop ≤ outer.stop

end Range

/-- **A source with some ranges blanked.** -/
def blankRanges (src : Bytes) (ranges : List Range) : Bytes :=
  src.mapIdx fun i b =>
    if b ≠ Bytes.newline ∧ ranges.any (·.has i) then 0x20 else b

@[simp] theorem size_blankRanges (src : Bytes) (ranges : List Range) :
    (blankRanges src ranges).size = src.size := by
  simp [blankRanges]

/-- The marks `@:` that open the lines of markup among runs. -/
def lineMarks (src : Bytes) (runs : List Range) : List Range :=
  (runs.filter fun r => src.hasAt [0x40, 0x3A] r.start).map fun r => ⟨r.start, r.start + 2⟩

/-- What one construct hides from the markup: its code, and the marks of its
lines of markup. -/
def Segment.hidden (src : Bytes) (s : Segment) : List Range :=
  s.codeRanges ++ lineMarks src s.markup

/-- The constructs of a scan and all that are nested in them, in pre-order. -/
def allSegments (scanned : List Segment) : List Segment := scanned.flatMap Segment.flatten

/-- **The view of the markup**: all code is blanked. -/
def markupView (src : Bytes) (scanned : List Segment) : Bytes :=
  blankRanges src ((allSegments scanned).flatMap (Segment.hidden src))

/-! ## Code -/

/-- **What a part of the code is wrapped in**: the text in front of it, and the
categories of the nodes that the wrapper becomes. -/
structure Wrapper where
  opening : String
  outer : String
  body : String
  deriving Repr, DecidableEq

/-- The wrapper of a construct's code: members need a class around them, the
sections of a switch a switch statement. -/
def wrapperOf? (c : Construct) : Option Wrapper :=
  match c.keyword? with
  | some keyword =>
    if memberKeywords.contains keyword then
      some ⟨"class __RazorCode \x7b", "ClassDeclaration", "DeclarationList"⟩
    else if keyword = "switch" then
      some ⟨"switch (__razor) \x7b", "SwitchStatement", "SwitchBody"⟩
    else none
  | none => none

/-- **A part of the code as it is parsed.** -/
structure CodeView where
  part : Range
  wrapper : Option Wrapper
  /-- The part with its markup runs blanked, inside its wrapper. -/
  text : Bytes
  deriving Repr

/-- The bytes in front of the part. -/
def CodeView.lead (v : CodeView) : Bytes :=
  match v.wrapper with
  | some w => Bytes.ofText w.opening
  | none => #[]

/-- The part of a source without the markup runs inside it. -/
def codeOf (src : Bytes) (runs : List Range) (part : Range) : Bytes :=
  (blankRanges src (runs.filter (·.within part))).slice part.start part.stop

/-- **The views of a construct's code**, one for each part. -/
def codeViews (src : Bytes) (s : Segment) : List CodeView :=
  s.codeParts.map fun part =>
    let wrapper := wrapperOf? s.construct
    let code := codeOf src s.markup part
    let text :=
      match wrapper with
      | some w => Bytes.ofText w.opening ++ code ++ Bytes.ofText "\x7d"
      | none => code
    { part, wrapper, text }

end SyntaxForest.Template
