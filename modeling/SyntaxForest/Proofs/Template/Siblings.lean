import Mathlib.Data.List.TakeWhile
import SyntaxForest.Proofs.Template.Descent

/-!
# What is done among siblings

At the end of its way a node that is placed stands before the first sibling that
starts at or after its start, and a node that is inserted cuts the text it overlaps,
takes in what lies inside it, and stands among what is left. This module says what
the siblings are afterwards: the pieces of a cut text (`mem_cutAt`), what is left
outside (`outsideOf`), and the node with what it took in (`wholeOf`).
-/

namespace SyntaxForest.Template

open SyntaxForest.Template.Span (ofTree)
open SyntaxForest.Tree (preorderAll Everywhere)

variable {s : Source} {span cut : Span} {t u q : Tree} {cs : List Tree}
variable {r : Tree → Tree → Prop}

/-! ## Order -/

/-- One node starts no later than another. -/
def StartsBefore (a b : Tree) : Prop := (ofTree a).start ≤ (ofTree b).start

instance : DecidableRel StartsBefore := fun a b =>
  inferInstanceAs (Decidable ((ofTree a).start ≤ (ofTree b).start))

/-- **The children of every node are in the order of their starts.** -/
def InOrder (t : Tree) : Prop := Everywhere StartsBefore t

instance : DecidablePred InOrder := fun t =>
  inferInstanceAs (Decidable (∀ u ∈ t.preorder, u.children.Pairwise StartsBefore))

/-- A node between what stands before it and what stands after it. -/
theorem pairwise_around {before after : List Tree} (h : (before ++ after).Pairwise r)
    (hbefore : ∀ b ∈ before, r b t) (hafter : ∀ a ∈ after, r t a) :
    (before ++ t :: after).Pairwise r := by
  rw [List.pairwise_append] at h
  rw [List.pairwise_append, List.pairwise_cons]
  refine ⟨h.1, ⟨hafter, h.2.1⟩, fun b hb a ha => ?_⟩
  rcases List.mem_cons.mp ha with rfl | ha
  · exact hbefore b hb
  · exact h.2.2 b hb a ha

/-! ## A node put before the first that starts no earlier -/

theorem insertByStart_eq (t : Tree) (cs : List Tree) :
    insertByStart t cs = (cs.takeWhile fun u => (ofTree u).start < (ofTree t).start)
      ++ t :: cs.dropWhile fun u => (ofTree u).start < (ofTree t).start := by
  induction cs with
  | nil => rfl
  | cons u rest ih =>
    rw [insertByStart]
    by_cases h : (ofTree t).start ≤ (ofTree u).start
    · rw [if_pos h, List.takeWhile_cons_of_neg (by simpa using h),
        List.dropWhile_cons_of_neg (by simpa using h)]
      rfl
    · rw [if_neg h, ih, List.takeWhile_cons_of_pos (by simpa using h),
        List.dropWhile_cons_of_pos (by simpa using h)]
      rfl

/-- Behind the first that starts no earlier than `low`, none of an ordered list does. -/
theorem le_start_of_dropWhile (h : cs.Pairwise StartsBefore) {low : Int}
    (hu : u ∈ cs.dropWhile fun v => (ofTree v).start < low) : low ≤ (ofTree u).start := by
  induction cs with
  | nil => cases hu
  | cons v rest ih =>
    by_cases hv : (ofTree v).start < low
    · rw [List.dropWhile_cons_of_pos (by simpa using hv)] at hu
      exact ih (List.Pairwise.of_cons h) hu
    · rw [List.dropWhile_cons_of_neg (by simpa using hv)] at hu
      have hlow : low ≤ (ofTree v).start := Int.not_lt.mp hv
      rcases List.mem_cons.mp hu with rfl | hu
      · exact hlow
      · exact Int.le_trans hlow (List.rel_of_pairwise_cons h hu)

theorem start_lt_of_takeWhile {low : Int}
    (hu : u ∈ cs.takeWhile fun v => (ofTree v).start < low) : (ofTree u).start < low := by
  simpa using List.mem_takeWhile_imp hu

/-- **A node among ordered siblings**, before the first that starts no earlier. -/
theorem insertByStart_pairwise (hcs : cs.Pairwise r) (hord : cs.Pairwise StartsBefore)
    (hbefore : ∀ b ∈ cs, (ofTree b).start < (ofTree t).start → r b t)
    (hafter : ∀ a ∈ cs, (ofTree t).start ≤ (ofTree a).start → r t a) :
    (insertByStart t cs).Pairwise r := by
  rw [insertByStart_eq]
  refine pairwise_around ?_ (fun b hb => ?_) fun a ha => ?_
  · rw [List.takeWhile_append_dropWhile]
    exact hcs
  · exact hbefore b ((List.takeWhile_sublist _).subset hb) (start_lt_of_takeWhile hb)
  · exact hafter a ((List.dropWhile_sublist _).subset ha) (le_start_of_dropWhile hord ha)

/-- Putting a node among others keeps them all. -/
theorem mem_insertByStart : u ∈ insertByStart t cs ↔ u = t ∨ u ∈ cs := by
  have h : u ∈ cs ↔ u ∈ (cs.takeWhile fun u => (ofTree u).start < (ofTree t).start)
      ++ cs.dropWhile fun u => (ofTree u).start < (ofTree t).start := by
    rw [List.takeWhile_append_dropWhile]
  rw [insertByStart_eq, h]
  simp only [List.mem_append, List.mem_cons]
  exact or_left_comm

theorem insertByStart_ne_nil : insertByStart t cs ≠ [] :=
  List.ne_nil_of_mem (mem_insertByStart.mpr (.inl rfl))

/-! ## Pieces of a text -/

/-- A node that is made for a span has it. -/
theorem ofTree_spanProperties (lines : LineIndex) (span : Span) (kind : String)
    (more : List (String × Scalar)) (children : List Tree) :
    ofTree (.node kind (spanProperties lines span ++ more) children) = span := by
  have hstart : Tree.get? (.node kind (spanProperties lines span ++ more) children) "span_start"
      = some (.int span.start) := rfl
  have hlength : Tree.get? (.node kind (spanProperties lines span ++ more) children)
      "span_length" = some (.int (span.stop - span.start)) := rfl
  rw [ofTree, hstart, hlength]
  show (⟨span.start, span.start + (span.stop - span.start)⟩ : Span) = span
  rw [Int.add_comm, Int.sub_add_cancel]

theorem le_pastBlanks (view : Bytes) (i stop : Nat) : i ≤ pastBlanks view i stop := by
  fun_induction pastBlanks view i stop <;> omega

theorem beforeBlanks_le (view : Bytes) (low n : Nat) : beforeBlanks view low n ≤ n := by
  fun_induction beforeBlanks view low n <;> omega

/-- **A piece of a text** that is cut: a text leaf, not empty, inside the text, and
before, inside or after the cut. -/
structure IsPiece (text cut : Span) (q : Tree) : Prop where
  leaf : isTextLeaf q = true
  low : text.start ≤ (ofTree q).start
  nonempty : (ofTree q).start < (ofTree q).stop
  high : (ofTree q).stop ≤ text.stop
  clear : (ofTree q).stop ≤ cut.start ∨ cut.contains (ofTree q) = true
    ∨ cut.stop ≤ (ofTree q).start

/-- **A piece is a text** that lies where it was cut. -/
theorem piece?_spec {start stop : Int} (h : piece? s start stop = some q) :
    isTextLeaf q = true ∧ start ≤ (ofTree q).start ∧ (ofTree q).start < (ofTree q).stop
      ∧ (ofTree q).stop ≤ stop := by
  unfold piece? at h
  dsimp only at h
  split at h
  · next hlt =>
    obtain rfl := Option.some.inj h
    have hlow := le_pastBlanks s.view start.toNat stop.toNat
    have hhigh := beforeBlanks_le s.view (pastBlanks s.view start.toNat stop.toNat) stop.toNat
    rw [ofTree_spanProperties]
    refine ⟨rfl, ?_, ?_, ?_⟩ <;> dsimp only <;> omega
  · cases h

/-- What is cut from a text is a piece of it that ends with it or before. -/
theorem mem_cutText {text : Span} (h : q ∈ cutText s text cut) :
    ∃ start stop, stop ≤ text.stop ∧ piece? s start stop = some q := by
  rw [cutText, List.mem_filterMap] at h
  obtain ⟨o, ho, rfl : o = some q⟩ := h
  simp only [List.mem_cons, List.not_mem_nil, or_false] at ho
  rcases ho with ho | ho | ho
  · exact ⟨_, _, Int.min_le_left _ _, ho.symm⟩
  · exact ⟨_, _, Int.min_le_left _ _, ho.symm⟩
  · exact ⟨_, _, Int.le_refl _, ho.symm⟩

/-- The pieces before, inside and after the cut, those that are not blank. -/
theorem cutText_eq (s : Source) (text cut : Span) : cutText s text cut
    = (piece? s text.start (min text.stop cut.start)).toList
      ++ ((piece? s (max text.start cut.start) (min text.stop cut.stop)).toList
        ++ (piece? s (max text.start cut.stop) text.stop).toList) := by
  unfold cutText
  cases piece? s text.start (min text.stop cut.start) <;>
  cases piece? s (max text.start cut.start) (min text.stop cut.stop) <;>
  cases piece? s (max text.start cut.stop) text.stop <;> rfl

/-- **The pieces of a text** are in order. -/
theorem cutText_spec (s : Source) (text : Span) (hcut : cut.start ≤ cut.stop) :
    (∀ q ∈ cutText s text cut, IsPiece text cut q)
      ∧ (cutText s text cut).Pairwise fun a b => (ofTree a).stop ≤ (ofTree b).start := by
  rw [cutText_eq]
  refine ⟨fun q hq => ?_, ?_⟩
  · simp only [List.mem_append, Option.mem_toList] at hq
    rcases hq with hq | hq | hq
    · obtain ⟨hleaf, hlow, hne, hhigh⟩ := piece?_spec hq
      exact ⟨hleaf, hlow, hne, by omega, .inl (by omega)⟩
    · obtain ⟨hleaf, hlow, hne, hhigh⟩ := piece?_spec hq
      exact ⟨hleaf, by omega, hne, by omega, .inr (.inl (Span.contains_iff.mpr (by omega)))⟩
    · obtain ⟨hleaf, hlow, hne, hhigh⟩ := piece?_spec hq
      exact ⟨hleaf, by omega, hne, hhigh, .inr (.inr (by omega))⟩
  · have hone : ∀ o : Option Tree,
        o.toList.Pairwise fun a b => (ofTree a).stop ≤ (ofTree b).start := by
      rintro (_ | q)
      · exact .nil
      · exact List.pairwise_singleton _ q
    rw [List.pairwise_append, List.pairwise_append]
    refine ⟨hone _, ⟨hone _, hone _, fun a ha b hb => ?_⟩, fun a ha b hb => ?_⟩
    · have ha := piece?_spec (Option.mem_toList.mp ha)
      have hb := piece?_spec (Option.mem_toList.mp hb)
      omega
    · have ha := piece?_spec (Option.mem_toList.mp ha)
      rcases List.mem_append.mp hb with hb | hb
      · have hb := piece?_spec (Option.mem_toList.mp hb)
        omega
      · have hb := piece?_spec (Option.mem_toList.mp hb)
        omega

/-- **What a sibling becomes**: itself if it is no text that is overlapped, and its
pieces if it is. -/
theorem mem_cutAt (hcut : cut.start ≤ cut.stop) (h : q ∈ cutAt s cut t) :
    (q = t ∧ (isTextLeaf t = true → (ofTree t).overlaps cut = false))
      ∨ (isTextLeaf t = true ∧ IsPiece (ofTree t) cut q) := by
  unfold cutAt at h
  dsimp only at h
  split at h
  · next hover =>
    rw [Bool.and_eq_true] at hover
    exact .inr ⟨hover.1, (cutText_spec s (ofTree t) hcut).1 q h⟩
  · next hover =>
    refine .inl ⟨List.mem_singleton.mp h, fun hleaf => ?_⟩
    rw [hleaf, Bool.true_and] at hover
    exact eq_false_of_ne_true hover

/-- What becomes of one sibling is in order. -/
theorem cutAt_pairwise (s : Source) (t : Tree) (hcut : cut.start ≤ cut.stop) :
    (cutAt s cut t).Pairwise fun a b =>
      (ofTree a).start < (ofTree a).stop ∧ (ofTree a).stop ≤ (ofTree b).start := by
  unfold cutAt
  dsimp only
  split
  · obtain ⟨hpieces, hpair⟩ := cutText_spec s (ofTree t) hcut
    exact hpair.imp_of_mem fun ha _ hab => ⟨(hpieces _ ha).nonempty, hab⟩
  · exact List.pairwise_singleton _ t

/-! ## What an inserted node takes in -/

/-- The siblings with the overlapped text cut. -/
def cutSiblings (s : Source) (t : Tree) (siblings : List Tree) : List Tree :=
  siblings.flatMap (cutAt s (ofTree t))

/-- The siblings inside the span of a node. -/
def insideOf (s : Source) (t : Tree) (siblings : List Tree) : List Tree :=
  (cutSiblings s t siblings).filter fun u => (ofTree t).contains (ofTree u)

/-- The siblings that are not inside the span of a node. -/
def outsideOf (s : Source) (t : Tree) (siblings : List Tree) : List Tree :=
  (cutSiblings s t siblings).filter fun u => !(ofTree t).contains (ofTree u)

/-- The node with what is inside its span. -/
def wholeOf (s : Source) (t : Tree) (siblings : List Tree) : Tree :=
  (insideOf s t siblings).foldl (fun t u => place u t) t

/-- **An insertion among siblings**: what begins in front of the node, the node, and the others. -/
theorem insertAmong_eq (s : Source) (t : Tree) (siblings : List Tree) :
    insertAmong s t siblings
      = ((outsideOf s t siblings).takeWhile fun u => (ofTree u).start < (ofTree t).start)
        ++ wholeOf s t siblings
          :: (outsideOf s t siblings).dropWhile fun u => (ofTree u).start < (ofTree t).start :=
  rfl

theorem insertAmong_ne_nil (s : Source) (t : Tree) (siblings : List Tree) :
    insertAmong s t siblings ≠ [] := by
  rw [insertAmong_eq]
  exact List.append_ne_nil_of_right_ne_nil _ (List.cons_ne_nil _ _)

theorem place_head (u t : Tree) : (place u t).head = t.head := (place_atHome u t).head_eq

/-- **The node itself** keeps its head: what it takes in goes below it. -/
theorem wholeOf_head (s : Source) (t : Tree) (siblings : List Tree) :
    (wholeOf s t siblings).head = t.head := by
  unfold wholeOf
  induction insideOf s t siblings generalizing t with
  | nil => rfl
  | cons u rest ih => rw [List.foldl_cons, ih, place_head]

/-- **What is proved of the node with what it takes in** holds of the node, and is kept
when one more is placed. -/
theorem wholeOf_induction {motive : Tree → Prop} {siblings : List Tree} (h : motive t)
    (hplace : ∀ w, motive w → ∀ u ∈ insideOf s t siblings, motive (place u w)) :
    motive (wholeOf s t siblings) := by
  unfold wholeOf
  exact List.foldlRecOn _ _ h fun w hw u hu => hplace w hw u hu

/-- **Where a sibling that is left comes from.** -/
theorem mem_cutSiblings {siblings : List Tree} :
    q ∈ cutSiblings s t siblings ↔ ∃ u ∈ siblings, q ∈ cutAt s (ofTree t) u :=
  List.mem_flatMap

/-- A node takes over the pieces and siblings that it holds. -/
theorem mem_insideOf {siblings : List Tree} : q ∈ insideOf s t siblings
    ↔ (∃ u ∈ siblings, q ∈ cutAt s (ofTree t) u) ∧ (ofTree t).contains (ofTree q) = true := by
  rw [insideOf, List.mem_filter, mem_cutSiblings]

/-- A node leaves outside the pieces and siblings that it does not hold. -/
theorem mem_outsideOf {siblings : List Tree} : q ∈ outsideOf s t siblings
    ↔ (∃ u ∈ siblings, q ∈ cutAt s (ofTree t) u) ∧ (ofTree t).contains (ofTree q) = false := by
  rw [outsideOf, List.mem_filter, mem_cutSiblings, Bool.not_eq_true']

theorem outsideOf_sublist (s : Source) (t : Tree) (siblings : List Tree) :
    (outsideOf s t siblings).Sublist (insertAmong s t siblings) := by
  have hsub : ((outsideOf s t siblings).takeWhile (fun u => (ofTree u).start < (ofTree t).start)
      ++ (outsideOf s t siblings).dropWhile fun u => (ofTree u).start < (ofTree t).start).Sublist
      (insertAmong s t siblings) := (List.sublist_cons_self _ _).append_left _
  rwa [List.takeWhile_append_dropWhile] at hsub

theorem mem_insertAmong {siblings : List Tree} (h : q ∈ insertAmong s t siblings) :
    q = wholeOf s t siblings ∨ q ∈ outsideOf s t siblings := by
  rw [insertAmong_eq, List.mem_append, List.mem_cons] at h
  rcases h with h | h | h
  · exact .inr ((List.takeWhile_sublist _).subset h)
  · exact .inl h
  · exact .inr ((List.dropWhile_sublist _).subset h)

/-- **A relation among the siblings after an insertion.** -/
theorem insertAmong_pairwise {siblings : List Tree} (hout : (outsideOf s t siblings).Pairwise r)
    (hbefore : ∀ b ∈ outsideOf s t siblings, (ofTree b).start < (ofTree t).start →
      r b (wholeOf s t siblings))
    (hafter : ∀ a ∈ (outsideOf s t siblings).dropWhile
      (fun u => (ofTree u).start < (ofTree t).start), r (wholeOf s t siblings) a) :
    (insertAmong s t siblings).Pairwise r := by
  rw [insertAmong_eq]
  refine pairwise_around ?_ (fun b hb => ?_) hafter
  · rw [List.takeWhile_append_dropWhile]
    exact hout
  · exact hbefore b ((List.takeWhile_sublist _).subset hb) (start_lt_of_takeWhile hb)

/-! ## Properties of all nodes -/

/-- A text leaf is all there is of its pre-order. -/
theorem preorder_of_isTextLeaf (h : isTextLeaf t = true) : t.preorder = [t] := by
  rw [isTextLeaf, Bool.and_eq_true, List.isEmpty_iff] at h
  rw [Tree.preorder_eq, h.2, Tree.preorderAll_nil]

/-- **A property that pieces inherit.** -/
def Inherited (cut : Span) (p : Tree → Prop) : Prop :=
  ∀ x q, isTextLeaf x = true → IsPiece (ofTree x) cut q → p x → p q

/-- **A property that what is cut from a text has** with the text. -/
def Kept (s : Source) (cut : Span) (p : Tree → Prop) : Prop :=
  ∀ x q, isTextLeaf x = true → q ∈ cutText s (ofTree x) cut → p x → p q

theorem Inherited.kept {p : Tree → Prop} (hcut : cut.start ≤ cut.stop) (hp : Inherited cut p) :
    Kept s cut p :=
  fun x q hleaf hq => hp x q hleaf ((cutText_spec s (ofTree x) hcut).1 q hq)

/-- What holds of a node and all below it, and passes from texts to what is cut from them, holds of
all that a cut leaves. -/
theorem forall_cutAt {p : Tree → Prop} (hcut : cut.start ≤ cut.stop) (hp : Kept s cut p)
    (h : ∀ x ∈ t.preorder, p x) (hq : q ∈ cutAt s cut t) : ∀ x ∈ q.preorder, p x := by
  unfold cutAt at hq
  dsimp only at hq
  split at hq
  · next hover =>
    have hleaf := (Bool.and_eq_true_iff.mp hover).1
    rw [preorder_of_isTextLeaf ((cutText_spec s (ofTree t) hcut).1 q hq).leaf]
    rw [preorder_of_isTextLeaf hleaf] at h
    exact List.forall_mem_singleton.mpr (hp t q hleaf hq (h t (List.mem_singleton.mpr rfl)))
  · rw [List.mem_singleton.mp hq]
    exact h

theorem forall_preorderAll_iff {p : Tree → Prop} :
    (∀ x ∈ preorderAll cs, p x) ↔ ∀ c ∈ cs, ∀ x ∈ c.preorder, p x := by
  rw [Tree.preorderAll_eq_flatMap, List.forall_mem_flatMap]

theorem forall_preorder_iff {p : Tree → Prop} :
    (∀ x ∈ t.preorder, p x) ↔ p t ∧ ∀ x ∈ preorderAll t.children, p x := by
  rw [Tree.preorder_eq, List.forall_mem_cons]

/-- Below a node that another is placed in. -/
theorem forall_place {p : Tree → Prop} (hp : OfHead p) (ht : ∀ x ∈ preorderAll t.children, p x)
    (hu : ∀ x ∈ u.preorder, p x) : ∀ x ∈ preorderAll (place u t).children, p x := by
  have hat := place_atHome u t
  refine hat.forall_mem hp insertByStart_ne_nil ht ?_
  refine forall_preorderAll_iff.mpr fun c hc => ?_
  rcases mem_insertByStart.mp hc with rfl | hc
  · exact hu
  · refine forall_preorderAll_iff.mp (fun x hx => ?_) c hc
    exact ht x (hat.mem_of_old hx)

/-- Below the node with what it took in. -/
theorem forall_wholeOf {p : Tree → Prop} {siblings : List Tree} (hp : OfHead p)
    (hown : ∀ x ∈ preorderAll t.children, p x)
    (hin : ∀ u ∈ insideOf s t siblings, ∀ x ∈ u.preorder, p x) :
    ∀ x ∈ preorderAll (wholeOf s t siblings).children, p x :=
  wholeOf_induction (motive := fun w => ∀ x ∈ preorderAll w.children, p x) hown
    fun _ hw u hu => forall_place hp hw (hin u hu)

/-- **Below the siblings after an insertion.** -/
theorem forall_insertAmong {p : Tree → Prop} {siblings : List Tree}
    (hcut : (ofTree t).start ≤ (ofTree t).stop) (hp : OfHead p) (hin : Kept s (ofTree t) p)
    (hself : p (wholeOf s t siblings)) (hown : ∀ x ∈ preorderAll t.children, p x)
    (hold : ∀ x ∈ preorderAll siblings, p x) :
    ∀ x ∈ preorderAll (insertAmong s t siblings), p x := by
  refine forall_preorderAll_iff.mpr fun c hc => ?_
  rcases mem_insertAmong hc with rfl | hc
  · refine forall_preorder_iff.mpr ⟨hself, forall_wholeOf hp hown fun u hu => ?_⟩
    obtain ⟨⟨d, hd, hud⟩, -⟩ := mem_insideOf.mp hu
    exact forall_cutAt hcut hin (forall_preorderAll_iff.mp hold d hd) hud
  · obtain ⟨⟨d, hd, hcd⟩, -⟩ := mem_outsideOf.mp hc
    exact forall_cutAt hcut hin (forall_preorderAll_iff.mp hold d hd) hcd

/-- **Below a tree after an insertion.** -/
theorem forall_insert {p : Tree → Prop} {root : Tree}
    (hcut : (ofTree t).start ≤ (ofTree t).stop) (hp : OfHead p) (hin : Kept s (ofTree t) p)
    (hself : ∀ w : Tree, w.head = t.head → p w) (hown : ∀ x ∈ preorderAll t.children, p x)
    (hold : ∀ x ∈ preorderAll root.children, p x) :
    ∀ x ∈ preorderAll (insert s t root).children, p x := by
  have hat := insert_atHome s t root
  refine hat.forall_mem hp (insertAmong_ne_nil _ _ _) hold ?_
  exact forall_insertAmong hcut hp hin (hself _ (wholeOf_head ..)) hown
    fun x hx => hold x (hat.mem_of_old hx)

/-! ## What is in a tree after an insertion -/

theorem wholeOf_mem_insertAmong (s : Source) (t : Tree) (siblings : List Tree) :
    wholeOf s t siblings ∈ insertAmong s t siblings := by
  rw [insertAmong_eq]
  exact List.mem_append_right _ (List.mem_cons_self ..)

/-- A sibling outside the inserted node was there, or is a piece of a text. -/
theorem mem_or_isTextLeaf_of_outsideOf {siblings : List Tree}
    (hcut : (ofTree t).start ≤ (ofTree t).stop) (h : q ∈ outsideOf s t siblings) :
    q ∈ siblings ∨ isTextLeaf q = true := by
  obtain ⟨⟨c, hc, hqc⟩, -⟩ := mem_outsideOf.mp h
  rcases mem_cutAt hcut hqc with ⟨rfl, -⟩ | ⟨-, hpiece⟩
  · exact .inl hc
  · exact .inr hpiece.leaf

/-- **What is in a tree after an insertion**: the node with what it took in, what was
there, the pieces of text, and the nodes on the way. -/
theorem mem_insert {root v : Tree} (hcut : (ofTree t).start ≤ (ofTree t).stop)
    (hv : v ∈ preorderAll (insert s t root).children) :
    v ∈ (wholeOf s t (siblingsAt (ofTree t) root)).preorder
      ∨ v ∈ preorderAll root.children ∨ isTextLeaf v = true
      ∨ ∃ u ∈ preorderAll root.children, isContainer (ofTree t) u = true
        ∧ AtHome (ofTree t) (siblingsAt (ofTree t) root)
          (insertAmong s t (siblingsAt (ofTree t) root)) u v := by
  have hat := insert_atHome s t root
  rcases hat.mem_preorderAll hv with hv | hv | hway
  · exact .inr (.inl hv)
  · rw [Tree.preorderAll_eq_flatMap, List.mem_flatMap] at hv
    obtain ⟨c, hc, hvc⟩ := hv
    rcases mem_insertAmong hc with rfl | hc
    · exact .inl hvc
    · rcases mem_or_isTextLeaf_of_outsideOf hcut hc with hc | hleaf
      · exact .inr (.inl (hat.mem_of_old (Tree.mem_preorderAll_of_preorder
          (Tree.mem_preorderAll_of_mem hc) hvc)))
      · rw [preorder_of_isTextLeaf hleaf, List.mem_singleton] at hvc
        exact .inr (.inr (.inl (hvc ▸ hleaf)))
  · exact .inr (.inr (.inr hway))

end SyntaxForest.Template
