import SyntaxForest.Forest
import SyntaxForest.Value.WorkList

/-!
# Writing and reading by work lists

Trees can be nested deeper than a call stack, so they are written as records and read back on
stacks of their own; the item put on a stack last is the first to be taken.

What is made is made before its children are. A record under construction waits on the stack with
the node that it is written of, a node with the record that it is read from. When it is taken, its
children are made and appended to it one by one, and each waits in its turn.
-/

namespace SyntaxForest

namespace Tree

/-! ## Writing -/

/-- **A record under construction**: the category and the properties that it says, and the places
of the records in its list of children. -/
structure Draft where
  kind : String
  properties : Properties
  children : List Nat

/-- The record of a node, without children. -/
def draft (t : Tree) : Draft := ⟨t.kind, t.properties, []⟩

/-- Makes records of several nodes and appends them to the one at `owner`. -/
def writeChildren (owner : Nat) (drafts : Array Draft) : List Tree → Array Draft
  | [] => drafts
  | t :: rest =>
    writeChildren owner ((drafts.push t.draft).modify owner fun d =>
      { d with children := d.children ++ [drafts.size] }) rest

/-- **Filling the records that wait**, each with its node and its place. -/
def writeFrom (drafts : Array Draft) : List (Tree × Nat) → Array Draft
  | [] => drafts
  | (t, place) :: waiting =>
    writeFrom (writeChildren place drafts t.children)
      ((t.children.zipIdx drafts.size).reverse ++ waiting)
termination_by waiting => sizeAll (waiting.map Prod.fst)
decreasing_by
  rw [List.map_append, List.map_reverse, List.zipIdx_map_fst, sizeAll_append, sizeAll_reverse,
    List.map_cons, sizeAll, size_eq t]
  omega

/-- Reads the record at a place down to a depth. -/
def readRecord (drafts : Array Draft) : Nat → Nat → Option Value
  | 0, _ => none
  | depth + 1, place => do
    let d ← drafts[place]?
    return .record [("node_type", .text d.kind), ("properties", d.properties.toValue),
      ("children", .list (← d.children.mapM (readRecord drafts depth)))]

/-- **A tree as a record, by a work list.** A record that is not below itself is nested no deeper
than there are records. -/
def toValueByWorkList (t : Tree) : Option Value :=
  let drafts := writeFrom #[t.draft] [(t, 0)]
  readRecord drafts drafts.size 0

/-- **The indented report of a tree**: the record, and its text, each by a work list. -/
def reportByWorkList (t : Tree) (indent : Int) : Option (Except Value.JsonFault String) :=
  t.toValueByWorkList.map (·.indentedByWorkList indent)

/-! ## Reading -/

/-- The records in what a record has as its list of children. -/
def recordsIn : Value → Except Fault (List Value)
  | .list items | .tuple items => .ok items
  | .text "" | .dict [] => .ok []
  | _ => .error .malformed

/-- The records below a record. -/
def recordsBelow : Value → Except Fault (List Value)
  | .dict entries =>
    match Value.field "children" entries with
    | none => .ok []
    | some value => recordsIn value
  | _ => .error .malformed

/-- Makes nodes of several records and appends them to `owner`. -/
def readInto (owner : NodeId) (f : Forest) : List Value → Except Forest.Refusal Forest
  | [] => .ok f
  | record :: rest => do
    let (kind, props) ← (readHead record).mapError .fault
    let f ← Forest.add ⟨f.cells.push ⟨kind, props, [], none⟩⟩ owner f.cells.size
    readInto owner f rest

/-- What a stack still has to do: the sizes of the records that wait. -/
noncomputable def load : List (Value × NodeId) → Nat
  | [] => 0
  | (record, _) :: waiting => sizeOf record + load waiting

theorem load_append (a b : List (Value × NodeId)) : load (a ++ b) = load a + load b := by
  induction a with
  | nil => rw [List.nil_append, load, Nat.zero_add]
  | cons w rest ih => rw [List.cons_append, load, load, ih, Nat.add_assoc]

theorem load_reverse (waiting : List (Value × NodeId)) : load waiting.reverse = load waiting := by
  induction waiting with
  | nil => rfl
  | cons w rest ih => rw [List.reverse_cons, load_append, ih, load, load, load, Nat.add_comm]; rfl

theorem load_lt_sizeOf (items : List Value) (next : NodeId) :
    load (items.zipIdx next).reverse < sizeOf items := by
  rw [load_reverse]
  induction items generalizing next with
  | nil => exact Nat.one_pos
  | cons v rest ih =>
    have hrest := ih (next + 1)
    rw [List.zipIdx_cons, load, List.cons.sizeOf_spec]
    omega

theorem sizeOf_field_lt {key : String} {entries : List (Value × Value)} {v : Value}
    (h : Value.field key entries = some v) : sizeOf v < sizeOf entries := by
  obtain ⟨e, he, rfl⟩ := Option.map_eq_some_iff.mp h
  have hentry : sizeOf e < sizeOf entries := List.sizeOf_lt_of_mem (List.mem_of_find?_eq_some he)
  obtain ⟨key, value⟩ := e
  rw [Prod.mk.sizeOf_spec] at hentry
  dsimp only
  omega

theorem load_recordsIn_lt {value : Value} {items : List Value} (h : recordsIn value = .ok items)
    (next : NodeId) : load (items.zipIdx next).reverse < sizeOf value := by
  have hload := load_lt_sizeOf items next
  unfold recordsIn at h
  split at h <;> cases h
  · rw [Value.list.sizeOf_spec]
    omega
  · rw [Value.tuple.sizeOf_spec]
    omega
  · exact Value.sizeOf_pos _
  · exact Value.sizeOf_pos _

/-- The records below a record are smaller together. -/
theorem load_recordsBelow_lt {record : Value} {items : List Value}
    (h : recordsBelow record = .ok items) (next : NodeId) :
    load (items.zipIdx next).reverse < sizeOf record := by
  unfold recordsBelow at h
  split at h
  · next entries =>
    cases hfield : Value.field "children" entries with
    | none =>
      rw [hfield] at h
      cases h
      exact Value.sizeOf_pos _
    | some value =>
      rw [hfield] at h
      rw [Value.dict.sizeOf_spec]
      have hitems := load_recordsIn_lt h next
      have hvalue := sizeOf_field_lt hfield
      omega
  · cases h

/-- **Filling the nodes that wait**, each with its record. -/
def readFrom (f : Forest) : List (Value × NodeId) → Except Forest.Refusal Forest
  | [] => .ok f
  | (record, id) :: waiting =>
    match _h : recordsBelow record with
    | .error fault => .error (.fault fault)
    | .ok items => do
      let filled ← readInto id f items
      readFrom filled ((items.zipIdx f.cells.size).reverse ++ waiting)
termination_by waiting => load waiting
decreasing_by
  rw [load_append]
  exact Nat.add_lt_add_right (load_recordsBelow_lt _h f.cells.size) (load waiting)

/-- **The forest that a record stands for, by a work list.** The root is its first node. -/
def ofValueByWorkList (record : Value) : Except Forest.Refusal Forest := do
  let (kind, props) ← (readHead record).mapError .fault
  readFrom ⟨#[⟨kind, props, [], none⟩]⟩ [(record, 0)]

end Tree

end SyntaxForest
