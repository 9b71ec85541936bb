import Mathlib.Data.Option.Basic
import SyntaxForest.Proofs.Inventory.Lists
import SyntaxForest.Proofs.ParseTree.WorkList
import SyntaxForest.Proofs.Places
import SyntaxForest.Proofs.Text.Joining

/-!
# The named skeleton

A conversion keeps the skeleton of the named nodes: at each place that is reached through named
children there is one node of the syntax tree, and at no other (`ParseTree.namedAt?`). What such a
node carries is determined key by key (`Conversion.Shows`): first the text, if the node is a leaf
and not the root, then the mark of a missing node, then what the dialect tells, then the span.
-/

namespace SyntaxForest

/-- The parse node at a place, if only named children are taken. -/
def ParseTree.namedAt? : ParseTree → Tree.Place → Option ParseTree
  | t, [] => some t
  | t, i :: p => t.namedChildren[i]?.bind fun c => namedAt? c p

/-- **What a dialect tells under a key**: the last value that it gives. -/
def told (described : List (String × Option Scalar)) (key : String) : Option Scalar :=
  (described.filterMap fun e => if e.1 = key then e.2 else none).getLast?

theorem told_cons (e : String × Option Scalar) (rest : List (String × Option Scalar))
    (key : String) :
    told (e :: rest) key = (told rest key).or (if e.1 = key then e.2 else none) := by
  unfold told
  rw [List.filterMap_cons]
  cases (if e.1 = key then e.2 else none) with
  | none => exact (Option.or_none ..).symm
  | some v =>
    rw [List.getLast?_cons]
    cases List.getLast? _ <;> rfl

namespace Properties

/-- **Setting what a dialect tells**: what it does not tell stays as it was. -/
theorem get?_foldl_told (described : List (String × Option Scalar)) (key : String)
    (props : Properties) :
    (described.foldl (fun props (k, v) => props.set? k v) props).get? key
      = (told described key).or (props.get? key) := by
  induction described generalizing props with
  | nil => rfl
  | cons e rest ih =>
    obtain ⟨k, v⟩ := e
    have hset : (props.set? k v).get? key = (if k = key then v else none).or (props.get? key) := by
      by_cases hk : k = key
      · subst hk
        rw [if_pos rfl]
        cases v with
        | none => rfl
        | some v => exact get?_set_self props k v
      · rw [if_neg hk, get?_set?_of_ne hk, Option.none_or]
    rw [List.foldl_cons, ih, told_cons, Option.or_assoc, hset]

end Properties

/-- **A category is the words of a kind without the underscores between them**, each word with a
capital in front and small letters behind. Underscores at the ends and underscores in a row part
words that are empty and leave no trace, and a kind that has no other words is kept. -/
theorem categoryOf_join {words : List String} (hne : words ≠ [])
    (h : ∀ w ∈ words, '_' ∉ w.toList) : categoryOf (Text.join "_" words)
      = if ∀ w ∈ words, w = "" then Text.join "_" words
        else String.join ((words.filter (· != "")).map capitalised) := by
  have hsplit : Text.split "_" (Text.join "_" words) = words := Text.split_join hne h
  have hempty : (words.filter (· != "")).isEmpty = true ↔ ∀ w ∈ words, w = "" := by
    simp
  rw [categoryOf, hsplit]
  exact if_congr hempty rfl rfl

namespace Conversion

/-- **The span that a node shows.** A shift moves its first byte and its lines, which count from
one, and leaves its length. It moves the column of an end only if that end lies on the first row
of the source, for only this row begins in the middle of a line of the file. -/
theorem get?_spanProperties_keys (n : ParseNode) (shift : Shift) :
    let shown := (spanProperties n shift).get?
    shown "span_start" = some (.int (n.start + shift.byte))
    ∧ shown "span_length" = some (.int ((n.stop : Int) - n.start))
    ∧ shown "start_line" = some (.int (n.startPoint.row + shift.row + 1))
    ∧ shown "end_line" = some (.int (n.stopPoint.row + shift.row + 1))
    ∧ shown "start_column" = some (.int (if n.startPoint.row = 0
        then n.startPoint.column + shift.column else n.startPoint.column))
    ∧ shown "end_column" = some (.int (if n.stopPoint.row = 0
        then n.stopPoint.column + shift.column else n.stopPoint.column)) := by
  have hcolumn (p : Point) : (p.column + if p.row = 0 then shift.column else 0 : Int)
      = if p.row = 0 then p.column + shift.column else p.column := by
    split
    · rfl
    · exact Int.add_zero _
  refine ⟨rfl, rfl, rfl, rfl, ?_, ?_⟩ <;> rw [← hcolumn] <;> rfl

variable {describe : Describe} {src : Bytes} {shift : Shift} {rootKind : Option String}
variable {t : ParseTree} {p : Tree.Place}

/-- **What the conversion makes of the node at a place.** -/
structure Shows (describe : Describe) (src : Bytes) (shift : Shift) (rootKind : Option String)
    (p : Tree.Place) (n : ParseTree) (u : Tree) : Prop where
  /-- The category; that of the root may be given. -/
  kind : u.kind = if p = [] then n.rootCategory rootKind else categoryOf n.kind
  /-- The properties, key by key. -/
  property : ∀ key, u.get? key =
    if key = "text" ∧ p ≠ [] ∧ n.namedChildren = [] then some (.text (n.text src))
    else if key = "is_missing" ∧ n.head.missing = true then some (.bool true)
    else (told (describe n src) key).or ((spanProperties n.head shift).get? key)
  /-- Leaves show a text, and no other nodes do unless the dialect tells one. -/
  text_iff : told (describe n src) "text" = none →
    ((u.get? "text").isSome = true ↔ p ≠ [] ∧ n.namedChildren = [])

theorem get?_nodeProperties_told (key : String) :
    (nodeProperties describe src shift t).get? key
      = if key = "is_missing" ∧ t.head.missing = true then some (.bool true)
        else (told (describe t src) key).or ((spanProperties t.head shift).get? key) := by
  unfold nodeProperties
  dsimp only
  by_cases hmissing : t.head.missing = true
  · rw [if_pos hmissing]
    by_cases hkey : key = "is_missing"
    · rw [if_pos ⟨hkey, hmissing⟩, hkey, Properties.get?_set_self]
    · rw [if_neg fun h => hkey h.1, Properties.get?_set_of_ne (Ne.symm hkey),
        Properties.get?_foldl_told]
  · rw [if_neg hmissing, if_neg fun h => hmissing h.2, Properties.get?_foldl_told]

/-- A node shows what its properties hold. -/
theorem Shows.of_property {n : ParseTree} {u : Tree}
    (kind : u.kind = if p = [] then n.rootCategory rootKind else categoryOf n.kind)
    (property : ∀ key, u.get? key =
      if key = "text" ∧ p ≠ [] ∧ n.namedChildren = [] then some (.text (n.text src))
      else (nodeProperties describe src shift n).get? key) :
    Shows describe src shift rootKind p n u := by
  refine ⟨kind, fun key => by rw [property, get?_nodeProperties_told], fun htold => ?_⟩
  have hspan : (spanProperties n.head shift).get? "text" = none := rfl
  rw [property, get?_nodeProperties_told, htold, hspan]
  by_cases hleaf : p ≠ [] ∧ n.namedChildren = [] <;> simp [hleaf]

theorem shows_root (t : ParseTree) : Shows describe src shift rootKind [] t
    (t.convert src describe shift rootKind).root := by
  rw [convert_root]
  exact .of_property rfl fun key => by simp [Tree.get?, Tree.properties]

theorem shows_converted (t : ParseTree) (hp : p ≠ []) :
    Shows describe src shift rootKind p t (converted describe src shift t) := by
  rw [converted_eq]
  refine .of_property (if_neg hp).symm fun key => ?_
  simp only [Tree.get?, Tree.properties, hp, ne_eq, not_false_iff, true_and, List.isEmpty_iff]
  by_cases hleaf : t.namedChildren = []
  · by_cases hkey : key = "text"
    · rw [if_pos hleaf, if_pos ⟨hkey, hleaf⟩, hkey, Properties.get?_set_self]
    · rw [if_pos hleaf, if_neg fun h => hkey h.1, Properties.get?_set_of_ne (Ne.symm hkey)]
  · rw [if_neg hleaf, if_neg fun h => hleaf h.2]

/-- **Below a node** the places of a conversion are those among named children. -/
theorem rel_converted {R : ParseTree → Tree → Prop} (hR : ∀ n, R n (converted describe src shift n))
    (t : ParseTree) (p : Tree.Place) :
    Option.Rel R (t.namedAt? p) ((converted describe src shift t).at? p) := by
  induction p generalizing t with
  | nil => exact .some (hR t)
  | cons i p ih =>
    rw [ParseTree.namedAt?, Tree.at?, converted_children, List.getElem?_map]
    cases t.namedChildren[i]? with
    | none => exact .none
    | some c => exact ih c

/-- **A conversion keeps the named skeleton.** The work list ends without a refusal, and the tree
that it leaves in the forest is the one of the recursion. At each place that is reached through
named children, and at no other, the tree has a node, and this is what the conversion makes of the
parse node at the place. -/
theorem convert_skeleton (t : ParseTree) (src : Bytes) (describe : Describe) (shift : Shift)
    (rootKind : Option String) :
    (∃ o, t.convertByWorkList src describe shift rootKind = .ok o
      ∧ o.forest.toTree? 0 = some (t.convert src describe shift rootKind).root
      ∧ Linked o.forest
      ∧ o.errorCount = (t.convert src describe shift rootKind).errorCount
      ∧ o.errorBytes = (t.convert src describe shift rootKind).errorBytes)
    ∧ ∀ p, Option.Rel (Shows describe src shift rootKind p) (t.namedAt? p)
        ((t.convert src describe shift rootKind).root.at? p) := by
  refine ⟨convertByWorkList_ok t src describe shift rootKind, fun p => ?_⟩
  cases p with
  | nil => exact .some (shows_root t)
  | cons i p =>
    rw [ParseTree.namedAt?, Tree.at?, convert_children, List.getElem?_map]
    cases t.namedChildren[i]? with
    | none => exact .none
    | some c => exact rel_converted (fun n => shows_converted n (List.cons_ne_nil i p)) c p

end Conversion

end SyntaxForest
