import SyntaxForest.Value.Json

/-!
# The indented report by a work list

A value may be nested deeper than a call stack, so a report can be written on a
stack of its own. A text or a value waits there, the value with its level of
nesting. A text that is taken is written as it is. A container that is taken
leaves its opening bracket, and what is in it waits in its place: in front of
each entry the text that leads to it, and behind the last one the closing
bracket.
-/

namespace SyntaxForest.Value

/-- **What waits to be written.** -/
inductive Piece
  | text (chunk : String)
  | value (v : Value) (level : Nat)

/-- **A container**: its brackets, and its entries, each with what is written in
front of the value. -/
structure Container where
  opening : String
  entries : List (String × Value)
  closing : String

/-- The items of a list. -/
def Container.ofItems (items : List Value) : Container :=
  ⟨"[", items.map fun v => ("", v), "]"⟩

/-- The fields of a dictionary, under their keys as they are displayed. -/
def Container.ofFields (fields : List (Value × Value)) : Container :=
  ⟨"\x7b", fields.map fun e => (jsonText e.1.display ++ ": ", e.2), "\x7d"⟩

/-- The container that a value is, unless it is empty. -/
def container? : Value → Option Container
  | .list (v :: rest) => some (.ofItems (v :: rest))
  | .tuple (v :: rest) => some (.ofItems (v :: rest))
  | .dict (e :: rest) => some (.ofFields (e :: rest))
  | _ => none

/-- What is written of a value that is no such container. -/
def leafText (v : Value) : Except JsonFault String :=
  match v with
  | .set _ | .bytes _ | .day _ | .moment _ => .error (.noJson v.kindName)
  | v => compact v

/-- The entries as pieces. The first has no comma in front of it, the others
have one. -/
def entryPieces (indent : Int) (level : Nat) (comma : String) : List (String × Value) → List Piece
  | [] => []
  | (lead, v) :: rest =>
    .text (comma ++ lineBreak indent (level + 1) ++ lead) :: .value v (level + 1)
      :: entryPieces indent level "," rest

/-- What waits after the opening bracket. -/
def Container.pieces (indent : Int) (level : Nat) (c : Container) : List Piece :=
  entryPieces indent level "" c.entries ++ [.text (lineBreak indent level ++ c.closing)]

/-- What a stack still has to do: the sizes of the values that wait. -/
noncomputable def load : List Piece → Nat
  | [] => 0
  | .text _ :: waiting => 1 + load waiting
  | .value v _ :: waiting => sizeOf v + load waiting

theorem load_append (a b : List Piece) : load (a ++ b) = load a + load b := by
  induction a with
  | nil => rw [List.nil_append, load, Nat.zero_add]
  | cons p rest ih => cases p <;> rw [List.cons_append, load, load, ih, Nat.add_assoc]

theorem load_itemPieces (indent : Int) (level : Nat) (comma : String) (items : List Value) :
    load (entryPieces indent level comma (items.map fun v => ("", v))) + 1 = sizeOf items := by
  induction items generalizing comma with
  | nil => rfl
  | cons v rest ih =>
    rw [List.map_cons, entryPieces, load, load, List.cons.sizeOf_spec, ← ih ","]
    omega

theorem load_fieldPieces_le (indent : Int) (level : Nat) (comma : String)
    (fields : List (Value × Value)) :
    load (entryPieces indent level comma
      (fields.map fun e => (jsonText e.1.display ++ ": ", e.2))) + 1 ≤ sizeOf fields := by
  induction fields generalizing comma with
  | nil => exact Nat.le_refl 1
  | cons e rest ih =>
    have hrest := ih ","
    have hvalue : sizeOf e.2 ≤ sizeOf e := by
      cases e
      rw [Prod.mk.sizeOf_spec]
      exact Nat.le_add_left _ _
    rw [List.map_cons, entryPieces, load, load, List.cons.sizeOf_spec]
    omega

theorem load_ofItems_lt (indent : Int) (level : Nat) (items : List Value) :
    load ((Container.ofItems items).pieces indent level) < 1 + sizeOf items := by
  rw [Container.pieces, load_append, load, load, Container.ofItems, load_itemPieces]
  exact Nat.lt_add_of_pos_left Nat.one_pos

theorem load_ofFields_lt (indent : Int) (level : Nat) (fields : List (Value × Value)) :
    load ((Container.ofFields fields).pieces indent level) < 1 + sizeOf fields := by
  rw [Container.pieces, load_append, load, load, Container.ofFields]
  exact Nat.lt_one_add_iff.mpr (load_fieldPieces_le indent level "" fields)

/-- The pieces of a container have less to do than the container. -/
theorem load_pieces_lt {v : Value} {c : Container} (h : v.container? = some c) (indent : Int)
    (level : Nat) : load (c.pieces indent level) < sizeOf v := by
  unfold container? at h
  split at h
  · next first rest =>
    rw [← Option.some.inj h, Value.list.sizeOf_spec]
    exact load_ofItems_lt indent level (first :: rest)
  · next first rest =>
    rw [← Option.some.inj h, Value.tuple.sizeOf_spec]
    exact load_ofItems_lt indent level (first :: rest)
  · next first rest =>
    rw [← Option.some.inj h, Value.dict.sizeOf_spec]
    exact load_ofFields_lt indent level (first :: rest)
  · exact absurd h.symm (Option.some_ne_none c)

theorem sizeOf_pos (v : Value) : 0 < sizeOf v := by
  cases v with
  | null => exact Nat.one_pos
  | _ => exact Nat.lt_one_add_iff.mpr (Nat.zero_le _)

/-- **The run**, from a stack of pieces that wait. -/
def write (indent : Int) : List Piece → Except JsonFault String
  | [] => .ok ""
  | .text chunk :: waiting => return chunk ++ (← write indent waiting)
  | .value v level :: waiting =>
    match _h : v.container? with
    | none => return (← leafText v) ++ (← write indent waiting)
    | some c => return c.opening ++ (← write indent (c.pieces indent level ++ waiting))
termination_by waiting => load waiting
decreasing_by
  · exact Nat.lt_add_of_pos_left Nat.one_pos
  · exact Nat.lt_add_of_pos_left (sizeOf_pos v)
  · rw [load_append]
    exact Nat.add_lt_add_right (load_pieces_lt _h indent level) (load waiting)

/-- **A value as an indented report, by a work list.** -/
def indentedByWorkList (v : Value) (indent : Int) : Except JsonFault String :=
  write indent [.value v 0]

end SyntaxForest.Value
