import SyntaxForest.ParseTree
import SyntaxForest.Text.Case
import SyntaxForest.Text.Split
import SyntaxForest.Tree

/-!
# From parse trees to syntax trees

A syntax tree keeps the named nodes of a parse tree. Each gets its span and its
position, what the dialect has to say about it, and, if it has no named children,
the text it covers; the root shows no text.

Errors are counted and weighed along the way: every error node and every missing
node counts once, and the weight is the number of bytes, white space aside, that
the outermost error nodes cover.
-/

namespace SyntaxForest

/-- **What a dialect has to say about a node**: properties, some without a
value. -/
abbrev Describe := ParseTree → Bytes → List (String × Option Scalar)

/-- Where a source stands in the file it was cut from. The column counts only on
its first row. -/
structure Shift where
  byte : Int := 0
  row : Int := 0
  column : Int := 0
  deriving Repr, Inhabited

/-- **The result of a conversion.** -/
structure Conversion where
  root : Tree
  errorCount : Nat
  errorBytes : Nat
  deriving Repr, Inhabited

/-- A word with a capital in front and small letters behind. -/
def capitalised (word : String) : String :=
  Text.upper (String.ofList (word.toList.take 1))
    ++ Text.lower (String.ofList (word.toList.drop 1))

/-- **The category that a kind of parse node becomes**: its words joined, each
capitalised. A kind without words is kept. -/
def categoryOf (kind : String) : String :=
  let words := (Text.split "_" kind).filter (· != "")
  if words.isEmpty then kind else String.join (words.map capitalised)

namespace Conversion

/-- The span of a node, moved by a shift. -/
def spanProperties (n : ParseNode) (shift : Shift) : Properties :=
  let column (p : Point) : Int := p.column + if p.row = 0 then shift.column else 0
  [("span_start", .int (n.start + shift.byte)),
    ("span_length", .int ((n.stop : Int) - n.start)),
    ("start_line", .int (n.startPoint.row + shift.row + 1)),
    ("start_column", .int (column n.startPoint)),
    ("end_line", .int (n.stopPoint.row + shift.row + 1)),
    ("end_column", .int (column n.stopPoint))]

/-- The properties of a node: its span, what the dialect says, and whether it is
missing. -/
def nodeProperties (describe : Describe) (src : Bytes) (shift : Shift) (t : ParseTree) :
    Properties :=
  let described := (describe t src).foldl (fun props (k, v) => props.set? k v)
    (spanProperties t.head shift)
  if t.head.missing then described.set "is_missing" (.bool true) else described

/-- How many faults the children of a node add: the missing ones. -/
def missingChildren (t : ParseTree) : Nat := t.children.countP (·.head.missing)

/-- The weight of an error node, unless it lies in another one. -/
def weight (src : Bytes) (insideError : Bool) (n : ParseNode) : Nat :=
  if n.error && !insideError then (src.slice n.start n.stop).contentLength else 0

mutual

/-- The conversion of a node below the root. -/
def below (describe : Describe) (src : Bytes) (shift : Shift) (insideError : Bool) :
    ParseTree → Conversion
  | .node head children =>
    let (trees, count, bytes) := allBelow describe src shift (insideError || head.error) children
    let t : ParseTree := .node head children
    let props := nodeProperties describe src shift t
    let props := if trees.isEmpty then props.set "text" (.text (t.text src)) else props
    { root := .node (categoryOf head.kind) props trees
      errorCount := (if head.error then 1 else 0) + missingChildren t + count
      errorBytes := weight src insideError head + bytes }

/-- The conversions of the named nodes among several, and their faults. -/
def allBelow (describe : Describe) (src : Bytes) (shift : Shift) (insideError : Bool) :
    List ParseTree → List Tree × Nat × Nat
  | [] => ([], 0, 0)
  | .node head children :: rest =>
    let (trees, count, bytes) := allBelow describe src shift insideError rest
    if head.named then
      let c := below describe src shift insideError (.node head children)
      (c.root :: trees, c.errorCount + count, c.errorBytes + bytes)
    else (trees, count, bytes)

end

end Conversion

/-- **The syntax tree of a parse tree**, with its root's category replaced if one
is given. -/
def ParseTree.convert (t : ParseTree) (src : Bytes) (describe : Describe)
    (shift : Shift) (rootKind : Option String) : Conversion :=
  let (trees, count, bytes) :=
    Conversion.allBelow describe src shift t.head.error t.children
  let kind :=
    match rootKind with
    | none | some "" => categoryOf t.kind
    | some k => k
  { root := .node kind (Conversion.nodeProperties describe src shift t) trees
    errorCount := (if t.head.error then 1 else 0) + Conversion.missingChildren t + count
    errorBytes := Conversion.weight src false t.head + bytes }

end SyntaxForest
