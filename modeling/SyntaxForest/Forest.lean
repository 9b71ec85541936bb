import SyntaxForest.Tree.Record

/-!
# Forests

Nodes under construction live in a forest: each knows its children and the node
that owns it. Ownership is exclusive. A node that has an owner is refused to any
other; only its owner may take it again, at a further place.

The forest keeps every node ever made. A node is read out of it as a `Tree`,
provided that it is not among its own descendants.
-/

namespace SyntaxForest

/-- A node of a forest. -/
abbrev NodeId := Nat

/-- **A node in a forest**: category and properties, the children it has and the
owner that has it. -/
structure Forest.Cell where
  kind : String
  properties : Properties
  children : List NodeId
  parent : Option NodeId
  deriving Repr, Inhabited

/-- **A forest.** -/
structure Forest where
  cells : Array Forest.Cell
  deriving Repr, Inhabited

namespace Forest

/-- Why an operation was refused. -/
inductive Refusal
  /-- A property is no scalar. -/
  | fault (f : Tree.Fault)
  /-- The child, of category `child`, has another owner, of category `owner`. -/
  | owned (child owner : String)
  /-- A place is given by a number that no list can count by. -/
  | index (i : Int)
  deriving Repr

/-- The wording of a refusal; an index out of bounds has none. -/
def Refusal.message : Refusal → String
  | .fault f => f.message
  | .owned child owner => child ++ " node already belongs to a " ++ owner ++ " node"
  | .index _ => ""

/-- A forest without nodes. -/
def empty : Forest := ⟨#[]⟩

/-- Changes one node; a node that is not there changes nothing. -/
def modify (f : Forest) (id : NodeId) (change : Cell → Cell) : Forest :=
  ⟨f.cells.modify id change⟩

/-- The category of a node. -/
def kind (f : Forest) (id : NodeId) : String := (f.cells[id]?.map Cell.kind).getD ""

/-- The owner of a node. -/
def parent? (f : Forest) (id : NodeId) : Option NodeId := f.cells[id]?.bind Cell.parent

/-- The children of a node. -/
def children (f : Forest) (id : NodeId) : List NodeId :=
  (f.cells[id]?.map Cell.children).getD []

/-- The properties of a node. -/
def properties (f : Forest) (id : NodeId) : Properties :=
  (f.cells[id]?.map Cell.properties).getD []

/-! ## Ownership -/

/-- **Taking a child**: `owner` becomes its parent, unless another node is. -/
def adopt (f : Forest) (owner child : NodeId) : Except Refusal Forest :=
  match f.parent? child with
  | some current =>
    if current = owner then .ok f else .error (.owned (f.kind child) (f.kind current))
  | none => .ok (f.modify child fun c => { c with parent := some owner })

/-- Takes children one after another. What was taken before a refusal stays
taken. -/
def adoptAll (f : Forest) (owner : NodeId) : List NodeId → Forest × Option Refusal
  | [] => (f, none)
  | child :: rest =>
    match f.adopt owner child with
    | .ok f => adoptAll f owner rest
    | .error refusal => (f, some refusal)

/-- **A new node** with properties and children. -/
def create (f : Forest) (kind : String) (props : List (Value × Value))
    (children : List NodeId) : Forest × Except Refusal NodeId :=
  match Tree.readProperties kind props with
  | .error fault => (f, .error (.fault fault))
  | .ok props =>
    let id := f.cells.size
    let (f, refused) := adoptAll ⟨f.cells.push ⟨kind, props, children, none⟩⟩ id children
    match refused with
    | some refusal => (f, .error refusal)
    | none => (f, .ok id)

/-- **Appending a child.** -/
def add (f : Forest) (owner child : NodeId) : Except Refusal Forest := do
  let f ← f.adopt owner child
  return f.modify owner fun c => { c with children := c.children ++ [child] }

/-- The place among `length` items that an index names: a negative one counts
from the end, and one that is out of range names the nearest end. -/
def placeOf (index : Int) (length : Nat) : Nat :=
  if index < 0 then (index + length).toNat else min index.toNat length

/-- Whether a list can count by an index: it is a signed number of 64 bits. -/
def isIndex (i : Int) : Bool := -0x8000000000000000 ≤ i && i < 0x8000000000000000

/-- **Putting a child at a place.** The child is taken first, and stays taken if the
index is none. -/
def insert (f : Forest) (owner : NodeId) (index : Int) (child : NodeId) :
    Forest × Option Refusal :=
  match f.adopt owner child with
  | .error refusal => (f, some refusal)
  | .ok f =>
    if isIndex index then
      (f.modify owner fun c =>
        { c with children := c.children.insertIdx (placeOf index c.children.length) child }, none)
    else (f, some (.index index))

/-- **Letting all children go.** -/
def detach (f : Forest) (owner : NodeId) : Forest × List NodeId :=
  let gone := f.children owner
  let f := f.modify owner fun c => { c with children := [] }
  (gone.foldl (fun f child => f.modify child fun c => { c with parent := none }) f, gone)

/-- **Setting a property**; null sets nothing. -/
def set (f : Forest) (id : NodeId) (key : String) (value : Value) : Except Refusal Forest :=
  match value with
  | .null => .ok f
  | _ =>
    match Scalar.ofValue? value with
    | some s => .ok (f.modify id fun c => { c with properties := c.properties.set key s })
    | none => .error (.fault (.notScalar (.text key) none value.kindName))

/-! ## Between forests and trees -/

/-- Reads a node out down to a depth. -/
def readTree (f : Forest) : Nat → NodeId → Option Tree
  | 0, _ => none
  | depth + 1, id => do
    let cell ← f.cells[id]?
    return .node cell.kind cell.properties (← cell.children.mapM (readTree f depth))

/-- **The tree below a node.** A node that is not its own descendant is nested no
deeper than there are nodes. -/
def toTree? (f : Forest) (id : NodeId) : Option Tree := f.readTree (f.cells.size + 1) id

mutual

/-- Enters a tree whose owner is `parent`; the node entered first is the root. -/
def enter (f : Forest) (parent : Option NodeId) : Tree → Forest × NodeId
  | .node kind props children =>
    let id := f.cells.size
    let (f, ids) := enterAll ⟨f.cells.push ⟨kind, props, [], parent⟩⟩ id children
    (f.modify id fun c => { c with children := ids }, id)

/-- Enters trees with one owner. -/
def enterAll (f : Forest) (owner : NodeId) : List Tree → Forest × List NodeId
  | [] => (f, [])
  | t :: rest =>
    let (f, id) := enter f (some owner) t
    let (f, ids) := enterAll f owner rest
    (f, id :: ids)

end

/-- **Whether two nodes carry equal trees.** A node shares its data with itself. -/
def equal? (f : Forest) (a b : NodeId) : Option Bool := do
  return Tree.equalByWorkList (a == b) (← f.toTree? a) (← f.toTree? b)

end Forest

end SyntaxForest
