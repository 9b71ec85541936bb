import SyntaxForest.Forest
import SyntaxForest.ParseTree.Conversion

/-!
# Conversion by a work list

A parse tree may be nested deeper than a call stack, so a conversion can be run on a stack of its
own. Nodes are made in a forest before their children are: a node that is made waits on the stack,
with the parse node it was made of. When it is taken, nodes are made of its named children and
appended to it one by one, and each waits in its turn. A node without named children gets its
text then, unless it is the root.
-/

namespace SyntaxForest

namespace ParseTree

mutual

/-- The number of nodes, the anonymous ones included. -/
def size : ParseTree → Nat
  | node _ children => 1 + sizeAll children

/-- The number of nodes of several trees. -/
def sizeAll : List ParseTree → Nat
  | [] => 0
  | t :: rest => size t + sizeAll rest

end

theorem sizeAll_append (a b : List ParseTree) : sizeAll (a ++ b) = sizeAll a + sizeAll b := by
  induction a with
  | nil => simp [sizeAll]
  | cons t rest ih => simp [sizeAll, ih]; omega

theorem sizeAll_reverse (ts : List ParseTree) : sizeAll ts.reverse = sizeAll ts := by
  induction ts with
  | nil => rfl
  | cons t rest ih => simp [sizeAll, sizeAll_append, ih]; omega

theorem sizeAll_filter_le (keep : ParseTree → Bool) (ts : List ParseTree) :
    sizeAll (ts.filter keep) ≤ sizeAll ts := by
  induction ts with
  | nil => exact Nat.le_refl _
  | cons t rest ih =>
    rw [List.filter_cons]
    split <;> simp only [sizeAll] <;> omega

theorem sizeAll_namedChildren_lt (t : ParseTree) : sizeAll t.namedChildren < t.size := by
  cases t with
  | node head children =>
    have := sizeAll_filter_le (·.head.named) children
    simp only [namedChildren, ParseTree.children, size]
    omega

end ParseTree

namespace Conversion

/-- **A node that waits** for its children: the parse node that it was made of, and whether it
lies in an error. -/
structure Waiting where
  id : NodeId
  tree : ParseTree
  insideError : Bool

/-- **What a run comes to**: the forest with the nodes, and the faults on the way. -/
structure Outcome where
  forest : Forest
  errorCount : Nat
  errorBytes : Nat

section Run

variable (describe : Describe) (src : Bytes) (shift : Shift)

/-- Makes a node of some category, without children. -/
def make (f : Forest) (kind : String) (t : ParseTree) : Forest :=
  ⟨f.cells.push ⟨kind, nodeProperties describe src shift t, [], none⟩⟩

/-- Makes nodes and appends them to `owner`. -/
def addChildren (owner : NodeId) (f : Forest) : List ParseTree → Except Forest.Refusal Forest
  | [] => .ok f
  | t :: rest => do
    let f ← (make describe src shift f (categoryOf t.kind) t).add owner f.cells.size
    addChildren owner f rest

/-- What is done with a node that is taken. -/
def fill (f : Forest) (w : Waiting) : Except Forest.Refusal Forest :=
  if w.tree.namedChildren.isEmpty then
    if w.id = 0 then .ok f else f.set w.id "text" (.text (w.tree.text src))
  else addChildren describe src shift w.id f w.tree.namedChildren

/-- The nodes that wait when a node has got its children, the last child first. The first child
has the number `next`. -/
def Waiting.children (w : Waiting) (next : NodeId) : List Waiting :=
  ((w.tree.namedChildren.zipIdx next).map fun c =>
    ⟨c.2, c.1, w.insideError || w.tree.head.error⟩).reverse

/-- What a stack still has to do: the nodes of the trees that wait. -/
def load (waiting : List Waiting) : Nat := ParseTree.sizeAll (waiting.map (·.tree))

theorem load_append (a b : List Waiting) : load (a ++ b) = load a + load b := by
  rw [load, List.map_append, ParseTree.sizeAll_append]
  rfl

/-- The children of a node have one node less to do. -/
theorem load_children_lt (w : Waiting) (next : NodeId) : load (w.children next) < w.tree.size := by
  have hchildren : (w.children next).map (·.tree) = w.tree.namedChildren.reverse := by
    rw [Waiting.children, List.map_reverse, List.map_map]
    exact congrArg _ (List.zipIdx_map_fst ..)
  rw [load, hchildren, ParseTree.sizeAll_reverse]
  exact w.tree.sizeAll_namedChildren_lt

/-- **The run**, from a stack of nodes that wait. -/
def run (f : Forest) (count bytes : Nat) : List Waiting → Except Forest.Refusal Outcome
  | [] => .ok ⟨f, count, bytes⟩
  | w :: waiting => do
    let filled ← fill describe src shift f w
    run filled (count + (if w.tree.head.error then 1 else 0) + missingChildren w.tree)
      (bytes + weight src w.insideError w.tree.head) (w.children f.cells.size ++ waiting)
termination_by waiting => load waiting
decreasing_by
  rw [load_append]
  exact Nat.add_lt_add_right (load_children_lt w f.cells.size) (load waiting)

end Run

end Conversion

/-- The category of the root: the one that is given, if it is not empty. -/
def ParseTree.rootCategory (t : ParseTree) : Option String → String
  | none | some "" => categoryOf t.kind
  | some kind => kind

/-- **The conversion of a parse tree by a work list.** The root is the first node of the forest. -/
def ParseTree.convertByWorkList (t : ParseTree) (src : Bytes) (describe : Describe)
    (shift : Shift) (rootKind : Option String) : Except Forest.Refusal Conversion.Outcome :=
  Conversion.run describe src shift
    (Conversion.make describe src shift .empty (t.rootCategory rootKind) t) 0 0 [⟨0, t, false⟩]

end SyntaxForest
