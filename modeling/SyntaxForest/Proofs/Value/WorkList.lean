import SyntaxForest.Value.WorkList

/-!
# The work list writes the recursion's report

A stack of pieces promises a text: the texts on it as they are, and the values as the recursion
writes them, one after another (`rendered`). Taking a piece keeps the promise, as a container's
pieces promise, behind its opening bracket, what the recursion writes of it
(`rendered_pieces`). So the run writes what its stack promises (`write_eq_rendered`), a fault
included: the first value that JSON does not have is the fault of both
(`indentedByWorkList_eq`).
-/

namespace SyntaxForest.Value

variable {indent : Int} {level : Nat} {v : Value} {c : Container}

/-! ## Texts one after another -/

/-- **One text, then another**, if there are both; else the first fault. -/
def followedBy (x y : Except JsonFault String) : Except JsonFault String :=
  return (← x) ++ (← y)

theorem followedBy_assoc (x y z : Except JsonFault String) :
    followedBy (followedBy x y) z = followedBy x (followedBy y z) := by
  cases x with
  | error e => rfl
  | ok s =>
    cases y with
    | error e => rfl
    | ok t =>
      cases z with
      | error e => rfl
      | ok u => exact congrArg Except.ok String.append_assoc

theorem ok_followedBy_ok (s t : String) : followedBy (.ok s) (.ok t) = .ok (s ++ t) := rfl

theorem ok_append_followedBy (s t : String) (x : Except JsonFault String) :
    followedBy (.ok (s ++ t)) x = followedBy (.ok s) (followedBy (.ok t) x) := by
  rw [← followedBy_assoc, ok_followedBy_ok]

theorem empty_followedBy (x : Except JsonFault String) : followedBy (.ok "") x = x := by
  cases x with
  | error e => rfl
  | ok s => exact congrArg Except.ok String.empty_append

theorem followedBy_empty (x : Except JsonFault String) : followedBy x (.ok "") = x := by
  cases x with
  | error e => rfl
  | ok s => exact congrArg Except.ok String.append_empty

theorem followedBy_eq_ok {x y : Except JsonFault String} {a : String}
    (h : followedBy x y = .ok a) :
    ∃ front back, x = .ok front ∧ y = .ok back ∧ a = front ++ back := by
  cases x with
  | error e => exact absurd h.symm (by rintro ⟨⟩)
  | ok front =>
    cases y with
    | error e => exact absurd h.symm (by rintro ⟨⟩)
    | ok back => exact ⟨front, back, rfl, rfl, (Except.ok.inj h).symm⟩

/-- How the recursion puts an entry in front of the later ones. -/
theorem return_append_comma (front comma : String) (x y : Except JsonFault String) :
    (do return front ++ (← x) ++ comma ++ (← y))
      = followedBy (do return front ++ (← x)) (followedBy (.ok comma) y) := by
  cases x with
  | error e => rfl
  | ok s =>
    cases y with
    | error e => rfl
    | ok t => exact congrArg Except.ok String.append_assoc

/-- How the recursion puts brackets around what a container holds. -/
theorem return_brackets (opening line closing : String) (x : Except JsonFault String) :
    (do return opening ++ (← x) ++ line ++ closing)
      = followedBy (.ok opening) (followedBy x (.ok (line ++ closing))) := by
  cases x with
  | error e => rfl
  | ok s =>
    refine congrArg Except.ok ?_
    rw [String.append_assoc, String.append_assoc]

/-! ## What a stack promises -/

/-- **The text that a stack promises.** -/
def rendered (indent : Int) : List Piece → Except JsonFault String
  | [] => .ok ""
  | .text chunk :: waiting => followedBy (.ok chunk) (rendered indent waiting)
  | .value v level :: waiting => followedBy (indentedAt indent level v) (rendered indent waiting)

theorem rendered_append (a b : List Piece) :
    rendered indent (a ++ b) = followedBy (rendered indent a) (rendered indent b) := by
  induction a with
  | nil => exact (empty_followedBy _).symm
  | cons p rest ih => cases p <;> rw [List.cons_append, rendered, rendered, ih, followedBy_assoc]

/-- **The pieces of entries** promise what a recursion writes of them, if it writes a comma behind
each entry but the last. -/
theorem rendered_entryPieces {α : Type} (entry : α → String × Value)
    (recursion : List α → Except JsonFault String)
    (last : ∀ e, recursion [e] = followedBy (.ok (lineBreak indent (level + 1) ++ (entry e).1))
      (indentedAt indent (level + 1) (entry e).2))
    (more : ∀ e next rest, recursion (e :: next :: rest)
      = followedBy (recursion [e]) (followedBy (.ok ",") (recursion (next :: rest))))
    (comma : String) (e : α) (rest : List α) :
    rendered indent (entryPieces indent level comma ((e :: rest).map entry))
      = followedBy (.ok comma) (recursion (e :: rest)) := by
  induction rest generalizing comma e with
  | nil =>
    rw [List.map_cons, List.map_nil, entryPieces, entryPieces, rendered, rendered, rendered,
      followedBy_empty, last, ← followedBy_assoc, ok_followedBy_ok, String.append_assoc]
  | cons next rest ih =>
    rw [List.map_cons, entryPieces, rendered, rendered, ih, more, last, String.append_assoc,
      ok_append_followedBy, followedBy_assoc]

theorem rendered_itemPieces (comma : String) (first : Value) (rest : List Value) :
    rendered indent (entryPieces indent level comma ((first :: rest).map fun v => ("", v)))
      = followedBy (.ok comma) (indentedItems indent level (first :: rest)) := by
  refine rendered_entryPieces _ _ (fun v => ?_) (fun v next rest => ?_) comma first rest
  · rw [indentedItems, String.append_empty]
    rfl
  · rw [indentedItems, indentedItems, return_append_comma]
    exact List.cons_ne_nil next rest

theorem rendered_fieldPieces (comma : String) (first : Value × Value)
    (rest : List (Value × Value)) :
    rendered indent (entryPieces indent level comma
      ((first :: rest).map fun e => (jsonText e.1.display ++ ": ", e.2)))
      = followedBy (.ok comma) (indentedEntries indent level (first :: rest)) := by
  refine rendered_entryPieces _ _ (fun e => ?_) (fun e next rest => ?_) comma first rest
  · rw [indentedEntries, String.append_assoc]
    rfl
  · rw [indentedEntries, indentedEntries, return_append_comma]
    exact List.cons_ne_nil next rest

/-! ## Containers and leaves -/

/-- The pieces of a container promise what is between its brackets, and the closing one. -/
theorem rendered_pieces {inner : Except JsonFault String}
    (h : rendered indent (entryPieces indent level "" c.entries) = followedBy (.ok "") inner) :
    rendered indent (c.pieces indent level)
      = followedBy inner (.ok (lineBreak indent level ++ c.closing)) := by
  rw [Container.pieces, rendered_append, h, empty_followedBy, rendered, rendered, followedBy_empty]

/-- **What the recursion writes of a container**: the opening bracket, and what the pieces
promise. -/
theorem indentedAt_container (h : v.container? = some c) : indentedAt indent level v
    = followedBy (.ok c.opening) (rendered indent (c.pieces indent level)) := by
  unfold container? at h
  split at h
  · next first rest =>
    cases Option.some.inj h
    rw [indentedAt, return_brackets, rendered_pieces (rendered_itemPieces "" first rest)]
    · rfl
    · exact List.cons_ne_nil first rest
  · next first rest =>
    cases Option.some.inj h
    rw [indentedAt, return_brackets, rendered_pieces (rendered_itemPieces "" first rest)]
    · rfl
    · exact List.cons_ne_nil first rest
  · next first rest =>
    cases Option.some.inj h
    rw [indentedAt, return_brackets, rendered_pieces (rendered_fieldPieces "" first rest)]
    · rfl
    · exact List.cons_ne_nil first rest
  · exact absurd h.symm (Option.some_ne_none c)

/-- **What the recursion writes of any other value.** -/
theorem indentedAt_leaf (h : v.container? = none) : indentedAt indent level v = leafText v := by
  cases v with
  | list items =>
    cases items with
    | nil => rfl
    | cons first rest => exact absurd h (Option.some_ne_none _)
  | tuple items =>
    cases items with
    | nil => rfl
    | cons first rest => exact absurd h (Option.some_ne_none _)
  | dict entries =>
    cases entries with
    | nil => rfl
    | cons first rest => exact absurd h (Option.some_ne_none _)
  | _ => rfl

/-! ## The run -/

/-- **The run writes what its stack promises.** -/
theorem write_eq_rendered (waiting : List Piece) :
    write indent waiting = rendered indent waiting := by
  induction waiting using write.induct indent with
  | case1 => rw [write, rendered]
  | case2 chunk waiting ih =>
    rw [write, rendered, ih]
    rfl
  | case3 v level waiting hleaf ih =>
    rw [write, rendered, ih, indentedAt_leaf hleaf]
    split
    · rfl
    · next hc => exact absurd (hleaf.symm.trans hc).symm (Option.some_ne_none _)
  | case4 v level waiting c hc ih =>
    rw [write, rendered, indentedAt_container hc, followedBy_assoc, ← rendered_append, ← ih]
    split
    · next hleaf => exact absurd (hleaf.symm.trans hc).symm (Option.some_ne_none _)
    · next c' hc' =>
      cases Option.some.inj (hc'.symm.trans hc)
      rfl

/-- **The work list writes the recursion's report**, or fails with its fault. -/
theorem indentedByWorkList_eq (v : Value) (indent : Int) :
    v.indentedByWorkList indent = v.indented indent := by
  rw [indentedByWorkList, write_eq_rendered, rendered, rendered, followedBy_empty, indented]

end SyntaxForest.Value
