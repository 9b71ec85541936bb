import SyntaxForest.Proofs.Template.Merge

/-!
# Whether a merged tree is in the order of the source

Placing keeps the order of siblings, and so does putting a node among ordered
siblings. What can break it is a cut: the piece of a text behind the inserted node may
start behind a sibling that stands after the text. `Overtakes` says that this happens,
and `insert_inOrder_iff` that nothing else breaks the order of one insertion.
-/

namespace SyntaxForest.Template

open SyntaxForest.Template.Span (ofTree)
open SyntaxForest.Tree (preorderAll Everywhere)

variable {s : Source} {span : Span} {t u v w q root : Tree} {cs : List Tree}

/-! ## One insertion -/

/-- A node without children is in order. -/
theorem everywhere_of_isTextLeaf {r : Tree → Tree → Prop} (h : isTextLeaf t = true) :
    Everywhere r t := by
  have hnil : t.children = [] := by
    rw [isTextLeaf, Bool.and_eq_true, List.isEmpty_iff] at h
    exact h.2
  rw [Tree.everywhere_iff, hnil]
  exact ⟨.nil, fun c hc => absurd hc List.not_mem_nil⟩

/-- What is true below a sibling is true below what a cut makes of it. -/
theorem everywhere_of_mem_cutAt {r : Tree → Tree → Prop} {cut : Span}
    (hcut : cut.start ≤ cut.stop) (h : Everywhere r t) (hq : q ∈ cutAt s cut t) :
    Everywhere r q := by
  rcases mem_cutAt hcut hq with ⟨rfl, -⟩ | ⟨-, hpiece⟩
  · exact h
  · exact everywhere_of_isTextLeaf hpiece.leaf

/-- Siblings of which each ends before the next begins are in order. -/
theorem inOrder_of_precedes (h : Everywhere Precedes t) : InOrder t :=
  h.imp fun _ _ hab => Int.le_trans hab.1 hab.2

/-- **Placing keeps the order.** -/
theorem place_inOrder (ht : InOrder t) (hu : InOrder u) : InOrder (place u t) := by
  have hat := place_atHome u t
  obtain ⟨hpair, hall⟩ := hat.old_everywhere ht
  refine hat.everywhere ht ?_ (fun c hc => ?_) fun v _ v' _ hin x _ => ?_
  · exact insertByStart_pairwise hpair hpair (fun _ _ h => Int.le_of_lt h) fun _ _ h => h
  · rcases mem_insertByStart.mp hc with rfl | hc
    · exact hu
    · exact hall c hc
  · unfold StartsBefore
    rw [hin.ofTree_eq]
    exact ⟨id, id⟩

/-- A node in order that takes over what is in order is in order. -/
theorem wholeOf_inOrder {siblings : List Tree} (hcut : (ofTree t).start ≤ (ofTree t).stop)
    (ht : InOrder t) (hall : ∀ c ∈ siblings, InOrder c) : InOrder (wholeOf s t siblings) := by
  refine wholeOf_induction ht fun w hw u hu => ?_
  obtain ⟨⟨c, hc, huc⟩, -⟩ := mem_insideOf.mp hu
  exact place_inOrder hw (everywhere_of_mem_cutAt hcut (hall c hc) huc)

/-- **An insertion overtakes** if the siblings at the end of its way stand in an order
that its cut breaks: a piece of an earlier sibling starts behind a piece of a later
one, both outside the inserted span. -/
def Overtakes (s : Source) (t root : Tree) : Prop :=
  ∃ a b, [a, b].Sublist (siblingsAt (ofTree t) root)
    ∧ ∃ q ∈ cutAt s (ofTree t) a, ∃ p ∈ cutAt s (ofTree t) b,
      (ofTree t).contains (ofTree q) = false ∧ (ofTree t).contains (ofTree p) = false
        ∧ (ofTree p).start < (ofTree q).start

/-- What becomes of one sibling is in order, so only two can be out of order. -/
theorem outsideOf_pairwise_iff (hcut : (ofTree t).start ≤ (ofTree t).stop) :
    (outsideOf s t (siblingsAt (ofTree t) root)).Pairwise StartsBefore
      ↔ ¬ Overtakes s t root := by
  have hone : ∀ c, (cutAt s (ofTree t) c).Pairwise fun q p =>
      (!(ofTree t).contains (ofTree q)) = true → (!(ofTree t).contains (ofTree p)) = true →
        StartsBefore q p := by
    refine fun c => (cutAt_pairwise s c hcut).imp fun hqp _ _ => ?_
    unfold StartsBefore
    omega
  rw [outsideOf, List.pairwise_filter, cutSiblings, List.pairwise_flatMap,
    and_iff_right fun c _ => hone c, List.pairwise_iff_forall_sublist]
  unfold Overtakes StartsBefore
  simp only [Bool.not_eq_true']
  constructor
  · rintro h ⟨a, b, hsub, q, hq, p, hp, hqo, hpo, hlt⟩
    exact Int.not_le.mpr hlt (h hsub q hq p hp hqo hpo)
  · intro h a b hsub q hq p hp hqo hpo
    by_contra hlt
    exact h ⟨a, b, hsub, q, hq, p, hp, hqo, hpo, Int.not_le.mp hlt⟩

/-- **One insertion keeps the order if and only if it does not overtake.** -/
theorem insert_inOrder_iff (hcut : (ofTree t).start ≤ (ofTree t).stop) (hroot : InOrder root)
    (ht : InOrder t) : InOrder (insert s t root) ↔ ¬ Overtakes s t root := by
  have hat := insert_atHome s t root
  obtain ⟨hpair, hall⟩ := hat.old_everywhere hroot
  have hspan := ofTree_of_head (wholeOf_head s t (siblingsAt (ofTree t) root))
  rw [← outsideOf_pairwise_iff hcut]
  constructor
  · intro h
    -- what is outside the node is left among its siblings
    obtain ⟨v, hv, hnew⟩ := hat.exists_children.2
    have hchildren := h v hv
    rw [hnew] at hchildren
    exact hchildren.sublist (outsideOf_sublist s t _)
  · intro hout
    refine hat.everywhere hroot ?_ (fun c hc => ?_) fun v _ v' _ hin x _ => ?_
    · refine insertAmong_pairwise hout (fun b _ hb => ?_) fun a ha => ?_
      · unfold StartsBefore
        rw [hspan]
        exact Int.le_of_lt hb
      · unfold StartsBefore
        rw [hspan]
        exact le_start_of_dropWhile hout ha
    · rcases mem_insertAmong hc with rfl | hc
      · exact wholeOf_inOrder hcut ht hall
      · obtain ⟨⟨d, hd, hcd⟩, -⟩ := mem_outsideOf.mp hc
        exact everywhere_of_mem_cutAt hcut (hall d hd) hcd
    · unfold StartsBefore
      rw [hin.ofTree_eq]
      exact ⟨id, id⟩

/-! ## A run of insertions -/

theorem insertAll_take_succ {nodes : List Tree} {k : Nat} (hk : nodes[k]? = some t) :
    insertAll s root (nodes.take (k + 1)) = insert s t (insertAll s root (nodes.take k)) := by
  rw [insertAll, List.take_add_one, hk, List.foldl_append]
  rfl

/-- **A run stays in order exactly as long as no insertion overtakes.** -/
theorem insertAll_inOrder_iff {nodes : List Tree} (hroot : InOrder root)
    (hnodes : ∀ t ∈ nodes, InOrder t ∧ (ofTree t).start ≤ (ofTree t).stop) :
    (∀ k, InOrder (insertAll s root (nodes.take k)))
      ↔ ∀ k t, nodes[k]? = some t → ¬ Overtakes s t (insertAll s root (nodes.take k)) := by
  constructor
  · intro h k t hk
    obtain ⟨ht, hcut⟩ := hnodes t (List.mem_of_getElem? hk)
    have hnext := h (k + 1)
    rw [insertAll_take_succ hk] at hnext
    exact (insert_inOrder_iff hcut (h k) ht).mp hnext
  · intro h k
    induction k with
    | zero =>
      rw [List.take_zero]
      exact hroot
    | succ k ih =>
      cases hk : nodes[k]? with
      | none =>
        rw [List.take_add_one, hk, Option.toList_none, List.append_nil]
        exact ih
      | some t =>
        obtain ⟨ht, hcut⟩ := hnodes t (List.mem_of_getElem? hk)
        rw [insertAll_take_succ hk]
        exact (insert_inOrder_iff hcut ih ht).mpr (h k t hk)

end SyntaxForest.Template
