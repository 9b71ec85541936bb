import SyntaxForest.Value

/-!
# Syntax trees

Every dialect is analysed into one kind of tree: a node has the name of its
syntactic category, an ordered set of scalar properties, and its children in
source order. The categories and properties are open, so a new dialect needs no
new types.

A tree is walked in *pre-order*, a node before its children. `Tree.preorder` is
that order as a recursion, `Tree.walk` as a work list; trees can be nested
deeper than a call stack, so the work list is what runs.
-/

namespace SyntaxForest

open Number

/-- **A scalar**: what a property can hold. -/
inductive Scalar
  | text (s : String)
  | int (i : Int)
  | real (x : Binary64)
  | bool (b : Bool)
  deriving DecidableEq, Repr, Inhabited

namespace Scalar

/-- A scalar as a value. -/
def toValue : Scalar → Value
  | .text s => .text s
  | .int i => .int i
  | .real x => .real x
  | .bool b => .bool b

/-- The scalar that a value is, if it is one. -/
def ofValue? : Value → Option Scalar
  | .text s => some (.text s)
  | .int i => some (.int i)
  | .real x => some (.real x)
  | .bool b => some (.bool b)
  | _ => none

@[simp] theorem ofValue?_toValue (s : Scalar) : ofValue? s.toValue = some s := by
  cases s <;> rfl

/-- **Equality of scalars**, numbers by their place on the line. Two nans are
equal only if they are `shared`, one and the same datum. -/
def equal (shared : Bool) : Scalar → Scalar → Bool
  | .text s, .text t => s == t
  | .text _, _ => false
  | _, .text _ => false
  | .real x, .real y =>
    x.place.same y.place || (shared && x.place == .nowhere && y.place == .nowhere)
  | x, y => x.toValue.same y.toValue

/-- A natural number as a scalar. -/
def nat (n : Nat) : Scalar := .int n

/-- Whether the scalar is the truth value true; a number one is not. -/
def isTrue : Scalar → Bool
  | .bool b => b
  | _ => false

/-- The text that the scalar is, if it is one. -/
def text? : Scalar → Option String
  | .text s => some s
  | _ => none

end Scalar

/-- **The properties of a node**, in the order in which they were first set. No
key occurs twice. -/
abbrev Properties := List (String × Scalar)

namespace Properties

/-- The value of a property. -/
def get? (props : Properties) (key : String) : Option Scalar := props.lookup key

/-- Whether a property is there. -/
def has (props : Properties) (key : String) : Bool := (props.lookup key).isSome

/-- **Setting a property**: a present one keeps its place, a new one comes
last. -/
def set : Properties → String → Scalar → Properties
  | [], key, value => [(key, value)]
  | (k, v) :: rest, key, value =>
    if k = key then (key, value) :: rest else (k, v) :: set rest key value

/-- Setting a property that may be absent. -/
def set? (props : Properties) (key : String) : Option Scalar → Properties
  | some value => props.set key value
  | none => props

/-- Properties set one after another. -/
def setAll (props : Properties) (more : List (String × Scalar)) : Properties :=
  more.foldl (fun acc (k, v) => set acc k v) props

/-- **Equality of properties** as maps: the order does not count. -/
def equal (shared : Bool) (a b : Properties) : Bool :=
  a.length == b.length
    && a.all fun (k, v) => (b.lookup k).any fun w => v.equal shared w

/-- The properties as a dictionary. -/
def toValue (props : Properties) : Value := Value.record (props.map fun (k, v) => (k, v.toValue))

end Properties

/-- **A syntax tree.** -/
inductive Tree
  | node (kind : String) (properties : Properties) (children : List Tree)
  deriving Repr, Inhabited

namespace Tree

/-- The syntactic category of the root. -/
def kind : Tree → String
  | node k _ _ => k

/-- The properties of the root. -/
def properties : Tree → Properties
  | node _ p _ => p

/-- The children of the root, in source order. -/
def children : Tree → List Tree
  | node _ _ c => c

/-- A property of the root. -/
def get? (t : Tree) (key : String) : Option Scalar := t.properties.get? key

/-- The name of the root, if it has one and it is a text. -/
def name? (t : Tree) : Option String := (t.get? "name").bind Scalar.text?

/-- The line on which the root starts, from one; zero if it is not known. A truth
value recorded as a line is kept as it is. -/
def line (t : Tree) : Scalar :=
  match t.get? "start_line" with
  | some (.int i) => .int i
  | some (.bool b) => .bool b
  | _ => .int 0

/-! ## Pre-order -/

mutual

/-- **Pre-order by recursion**: the node, then the pre-order of each child. -/
def preorder : Tree → List Tree
  | node k p c => node k p c :: preorderAll c

/-- The pre-orders of several trees, one after another. -/
def preorderAll : List Tree → List Tree
  | [] => []
  | t :: rest => preorder t ++ preorderAll rest

end

mutual

/-- The number of nodes. -/
def size : Tree → Nat
  | node _ _ c => 1 + sizeAll c

/-- The number of nodes of several trees. -/
def sizeAll : List Tree → Nat
  | [] => 0
  | t :: rest => size t + sizeAll rest

end

@[simp] theorem sizeAll_append (a b : List Tree) : sizeAll (a ++ b) = sizeAll a + sizeAll b := by
  induction a with
  | nil => simp [sizeAll]
  | cons t rest ih => simp [sizeAll, ih]; omega

theorem sizeAll_reverse (trees : List Tree) : sizeAll trees.reverse = sizeAll trees := by
  induction trees with
  | nil => rfl
  | cons t rest ih =>
    rw [List.reverse_cons, sizeAll_append, ih, sizeAll, sizeAll, sizeAll]
    omega

/-- A tree has one node more than its children together. -/
theorem size_eq (t : Tree) : t.size = 1 + sizeAll t.children := by
  cases t; simp [size, children]

/-- One of several trees has no more nodes than all of them. -/
theorem size_le_sizeAll {t : Tree} {trees : List Tree} (h : t ∈ trees) :
    t.size ≤ sizeAll trees := by
  induction trees with
  | nil => simp at h
  | cons a rest ih =>
    rcases List.mem_cons.mp h with rfl | h
    · simp [sizeAll]
    · have := ih h; simp only [sizeAll]; omega

/-- **Pre-order by a work list**: the first tree is taken, and its children are
put in front of the trees that wait. -/
def walkFrom : List Tree → List Tree
  | [] => []
  | t :: waiting => t :: walkFrom (t.children ++ waiting)
termination_by trees => sizeAll trees
decreasing_by simp [sizeAll, size_eq t]

/-- **The nodes of a tree**, each as the subtree below it, in pre-order. -/
def walk (t : Tree) : List Tree := walkFrom [t]

/-- The nodes below the root, in pre-order. -/
def descendants (t : Tree) : List Tree := t.walk.drop 1

/-- The nodes of some category, the root included, in pre-order. -/
def findAll (t : Tree) (kinds : List String) : List Tree :=
  t.walk.filter fun n => kinds.contains n.kind

/-- The number of nodes, counted on the walk. -/
def nodeCount (t : Tree) : Nat := t.walk.length

/-- The first child of a category. -/
def firstChild? (t : Tree) (kind : String) : Option Tree := t.children.find? (·.kind == kind)

/-! ## Equality -/

mutual

/-- **Equality of trees**: category, properties, and children in order. With
`shared` the two trees are one datum read twice, so that a nan equals itself. -/
def equal (shared : Bool) : Tree → Tree → Bool
  | node k p c, node k' p' c' => k == k' && p.equal shared p' && equalAll shared c c'

/-- Equality of lists of trees. -/
def equalAll (shared : Bool) : List Tree → List Tree → Bool
  | [], [] => true
  | t :: rest, t' :: rest' => equal shared t t' && equalAll shared rest rest'
  | _, _ => false

end

/-- What two nodes are compared by before their children are. -/
def sameHead (shared : Bool) (a b : Tree) : Bool :=
  a.kind == b.kind && a.properties.equal shared b.properties
    && a.children.length == b.children.length

theorem sizeAll_zip_le (as bs : List Tree) :
    sizeAll ((as.zip bs).map Prod.fst) ≤ sizeAll as := by
  induction as generalizing bs with
  | nil => exact Nat.le_refl _
  | cons a as ih =>
    cases bs with
    | nil => exact Nat.zero_le _
    | cons b bs => exact Nat.add_le_add_left (ih bs) a.size

/-- **Equality by a work list**: a pair is taken, and the pairs of its children are put onto those
that wait, the last one to be taken next. -/
def equalFrom (shared : Bool) : List (Tree × Tree) → Bool
  | [] => true
  | (a, b) :: waiting =>
    sameHead shared a b && equalFrom shared ((a.children.zip b.children).reverse ++ waiting)
termination_by pairs => sizeAll (pairs.map Prod.fst)
decreasing_by
  have hzip := sizeAll_zip_le a.children b.children
  rw [List.map_append, List.map_reverse, sizeAll_append, sizeAll_reverse, List.map_cons, sizeAll,
    size_eq a]
  omega

/-- **Equality of two trees**, compared by a work list. -/
def equalByWorkList (shared : Bool) (a b : Tree) : Bool := equalFrom shared [(a, b)]

/-- How a node is shown: its category and properties, and how many children it
has. -/
def shown (t : Tree) : String :=
  "ASTNode(node_type=" ++ Text.quoted t.kind ++ ", properties=" ++ t.properties.toValue.shown
    ++ ", children=<" ++ toString t.children.length ++ ">)"

end Tree

end SyntaxForest
