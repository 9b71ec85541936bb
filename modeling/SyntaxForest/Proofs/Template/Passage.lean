import SyntaxForest.Proofs.Template.Order
import SyntaxForest.Proofs.Template.Path

/-!
# Which spans come through a node

A span inside another takes the same path, as far as that goes, unless it is caught on
the way by an earlier sibling that contains it and not the other. Such a sibling would
have to start before the outer span, for among siblings the larger come first. That is
not true of all of them, since a cut text, or a construct, may stay in front of a
sibling that starts before it. It is true of recorded nodes that are no text
(`Ranked`), in a run because what starts behind the last construct is still as it was
recorded (`Steady`).
-/

namespace SyntaxForest.Template

open SyntaxForest.Template.Span (ofTree)
open SyntaxForest.Tree (preorderAll Everywhere)

variable {s : Source} {span outer inner : Span} {t u w x y root : Tree} {low : Int}
variable {cs old new recorded done done' : List Tree}

/-- **How a sibling stands to a later one**, unless it is text, empty, or one of `done`:
it starts first, or at the same offset and ends last. -/
def Ranked (done : List Tree) (x y : Tree) : Prop :=
  isTextLeaf x = false → x.head ∉ done.map Tree.head → (ofTree x).start < (ofTree x).stop →
    (ofTree x).start ≤ (ofTree y).start
      ∧ ((ofTree x).start = (ofTree y).start →
        isTextLeaf y = true ∨ (ofTree y).stop < (ofTree x).stop)

theorem Ranked.of_start_lt (hlt : (ofTree x).start < (ofTree y).start) : Ranked done x y :=
  fun _ _ _ => ⟨Int.le_of_lt hlt, fun heq => absurd heq (Int.ne_of_lt hlt)⟩

/-- What precedes is ranked before. -/
theorem Precedes.ranked (hxy : Precedes x y) : Ranked done x y :=
  fun hleaf hdone hne => Ranked.of_start_lt (Int.lt_of_lt_of_le hne hxy.2) hleaf hdone hne

theorem Ranked.of_isTextLeaf (hx : isTextLeaf x = true) : Ranked done x y := by
  intro hleaf
  rw [hx] at hleaf
  cases hleaf

theorem Ranked.mono (hxy : Ranked done x y) (hsub : done ⊆ done') : Ranked done' x y :=
  fun hleaf hdone => hxy hleaf fun hmem => hdone (List.map_subset _ hsub hmem)

/-- A node on the way stands as it stood. -/
theorem ranked_atHome {u' : Tree} (hin : AtHome span old new u u') (hne : new ≠ [])
    (hu : isContainer span u = true) :
    (Ranked done x u → Ranked done x u') ∧ (Ranked done u x → Ranked done u' x) := by
  unfold Ranked
  rw [hin.head_eq, hin.ofTree_eq, hin.not_isTextLeaf hne, (isContainer_iff.mp hu).1]
  exact ⟨id, id⟩

/-- Ranked siblings stay so when they are cut. -/
theorem cutSiblings_ranked (hcut : (ofTree t).start ≤ (ofTree t).stop)
    (hcs : cs.Pairwise (Ranked done)) : (cutSiblings s t cs).Pairwise (Ranked done) := by
  rw [cutSiblings, List.pairwise_flatMap]
  refine ⟨fun c _ => (cutAt_pairwise s c hcut).imp fun hab => ?_, hcs.imp ?_⟩
  · exact Precedes.ranked ⟨Int.le_of_lt hab.1, hab.2⟩
  · intro a b hab p hp q hq
    rcases mem_cutAt hcut hp with ⟨rfl, -⟩ | ⟨-, hpiece⟩
    · rcases mem_cutAt hcut hq with ⟨rfl, -⟩ | ⟨-, hpiece⟩
      · exact hab
      · intro hleaf hdone hne
        exact ⟨Int.le_trans (hab hleaf hdone hne).1 hpiece.low, fun _ => .inl hpiece.leaf⟩
    · exact .of_isTextLeaf hpiece.leaf

/-- **Placing keeps the ranks** in a tree that is in order. -/
theorem place_ranked (hw : Everywhere (Ranked done) w) (hord : InOrder w)
    (hu : Everywhere (Ranked done) u) : Everywhere (Ranked done) (place u w) := by
  have hat := place_atHome u w
  obtain ⟨hpair, hall⟩ := hat.old_everywhere hw
  refine hat.everywhere hw ?_ (fun c hc => ?_) fun v _ v' hv hin x _ =>
    ranked_atHome hin insertByStart_ne_nil hv
  · refine insertByStart_pairwise hpair (hat.old_everywhere hord).1
      (fun b _ hlt => .of_start_lt hlt) fun a ha hle _ _ _ => ⟨hle, fun heq => ?_⟩
    -- the place is the deepest: a sibling that starts with the node does not contain it
    by_contra hnot
    obtain ⟨hleaf, hstop⟩ := not_or.mp hnot
    have hcontainer : isContainer (ofTree u) a = true :=
      isContainer_iff.mpr ⟨Bool.eq_false_iff.mpr hleaf, by omega, by omega⟩
    rw [hat.old_none a ha] at hcontainer
    cases hcontainer
  · rcases mem_insertByStart.mp hc with rfl | hc
    · exact hu
    · exact hall c hc

/-! ## A run of insertions -/

/-- **A tree in the course of a merge**, after the constructs `done`, of which the last
starts at `low`: siblings are ranked, what starts behind `low` is in order, and what is
no text is a construct or was recorded. -/
structure Steady (recorded done : List Tree) (low : Int) (root : Tree) : Prop where
  ranked : Everywhere (Ranked done) root
  behind : ∀ v ∈ preorderAll root.children, low < (ofTree v).start → InOrder v
  known : ∀ v ∈ preorderAll root.children, isTextLeaf v = false →
    v.head ∈ done.map Tree.head
      ∨ ∃ r ∈ preorderAll recorded, isTextLeaf r = false ∧ r.head = v.head

/-- What a node takes in starts behind the last construct, and is as it was recorded. -/
theorem Steady.insideOf (hroot : Steady recorded done low root) (hlow : low < (ofTree t).start)
    (hcut : (ofTree t).start ≤ (ofTree t).stop)
    (hu : u ∈ insideOf s t (siblingsAt (ofTree t) root)) :
    Everywhere (Ranked done) u ∧ InOrder u := by
  have hat := insert_atHome s t root
  obtain ⟨⟨c, hc, huc⟩, hcontains⟩ := mem_insideOf.mp hu
  refine ⟨everywhere_of_mem_cutAt hcut ((hat.old_everywhere hroot.ranked).2 c hc) huc, ?_⟩
  rcases mem_cutAt hcut huc with ⟨rfl, -⟩ | ⟨-, hpiece⟩
  · refine hroot.behind u (hat.mem_of_old (Tree.mem_preorderAll_of_mem hc)) ?_
    exact Int.lt_of_lt_of_le hlow (Span.contains_iff.mp hcontains).1
  · exact everywhere_of_isTextLeaf hpiece.leaf

/-- **What a steady root gives to a node** is ranked and in order. -/
theorem Steady.wholeOf (hroot : Steady recorded done low root) (hlow : low < (ofTree t).start)
    (hcut : (ofTree t).start ≤ (ofTree t).stop) (hown : Everywhere Precedes t) :
    Everywhere (Ranked done) (wholeOf s t (siblingsAt (ofTree t) root))
      ∧ InOrder (wholeOf s t (siblingsAt (ofTree t) root)) := by
  refine wholeOf_induction (motive := fun w => Everywhere (Ranked done) w ∧ InOrder w)
    ⟨hown.imp fun _ _ => Precedes.ranked, inOrder_of_precedes hown⟩ fun w hw u hu => ?_
  obtain ⟨hranked, hord⟩ := hroot.insideOf hlow hcut hu
  exact ⟨place_ranked hw.1 hw.2 hranked, place_inOrder hw.2 hord⟩

/-- The siblings are ranked after an insertion, the new construct being one of `done`. -/
theorem Steady.insert_ranked (hroot : Steady recorded done low root)
    (hcut : (ofTree t).start ≤ (ofTree t).stop)
    (hwhole : Everywhere (Ranked done) (Template.wholeOf s t (siblingsAt (ofTree t) root))) :
    Everywhere (Ranked (done ++ [t])) (insert s t root) := by
  have hat := insert_atHome s t root
  have hsub : done ⊆ done ++ [t] := List.subset_append_left ..
  obtain ⟨hpair, hall⟩ := hat.old_everywhere hroot.ranked
  refine hat.everywhere (hroot.ranked.imp fun _ _ h => h.mono hsub)
    (insertAmong_pairwise ?_ (fun b _ hlt => ?_) fun a _ _ hdone => ?_) (fun c hc => ?_)
    fun v _ v' hv hin x _ => ranked_atHome hin (insertAmong_ne_nil _ _ _) hv
  · exact ((cutSiblings_ranked hcut hpair).sublist List.filter_sublist).imp fun h => h.mono hsub
  · refine .of_start_lt ?_
    rwa [ofTree_of_head (wholeOf_head ..)]
  · refine absurd ?_ hdone
    rw [wholeOf_head]
    exact List.mem_map_of_mem (List.mem_append_right _ (List.mem_singleton.mpr rfl))
  · suffices hranked : Everywhere (Ranked done) c from hranked.imp fun _ _ h => h.mono hsub
    rcases mem_insertAmong hc with rfl | hc
    · exact hwhole
    · obtain ⟨⟨d, hd, hcd⟩, -⟩ := mem_outsideOf.mp hc
      exact everywhere_of_mem_cutAt hcut (hall d hd) hcd

/-- **One insertion.** -/
theorem Steady.insert (hroot : Steady recorded done low root) (hlow : low < (ofTree t).start)
    (hne : (ofTree t).start < (ofTree t).stop) (hown : Everywhere Precedes t)
    (hrecorded : ∀ v ∈ preorderAll t.children, v ∈ preorderAll recorded) :
    Steady recorded (done ++ [t]) (ofTree t).start (insert s t root) := by
  have hcut := Int.le_of_lt hne
  obtain ⟨hranked, hord⟩ := hroot.wholeOf (s := s) hlow hcut hown
  refine ⟨hroot.insert_ranked hcut hranked, fun v hv hlt => ?_, ?_⟩
  · rcases mem_insert hcut hv with hv | hv | hleaf | ⟨u, -, hu, hin⟩
    · exact fun x hx => hord x (Tree.mem_preorder_trans hv hx)
    · exact hroot.behind v hv (Int.lt_trans hlow hlt)
    · exact everywhere_of_isTextLeaf hleaf
    · -- a node on the way starts before the construct
      have hle := (isContainer_iff.mp hu).2.1
      rw [hin.ofTree_eq] at hlt
      omega
  · refine forall_insert hcut ?_ ?_ ?_ ?_ ?_
    · exact fun u u' hhead hu _ hp _ => hhead ▸ hp hu
    · refine Inherited.kept hcut fun x q _ hq _ hleaf => ?_
      rw [hq.leaf] at hleaf
      cases hleaf
    · intro w hw _
      rw [hw]
      exact .inl (List.mem_map_of_mem (List.mem_append_right _ (List.mem_singleton.mpr rfl)))
    · exact fun v hv hleaf => .inr ⟨v, hrecorded v hv, hleaf, rfl⟩
    · intro v hv hleaf
      refine (hroot.known v hv hleaf).imp_left fun h => ?_
      exact List.map_subset _ (List.subset_append_left ..) h

/-- **A run of insertions.** -/
theorem Steady.insertAll {nodes : List Tree} (hroot : Steady recorded done low root)
    (hbehind : ∀ t ∈ nodes, low < (ofTree t).start)
    (hstarts : nodes.Pairwise fun a b => (ofTree a).start < (ofTree b).start)
    (hnodes : ∀ t ∈ nodes, (ofTree t).start < (ofTree t).stop ∧ Everywhere Precedes t
      ∧ ∀ v ∈ preorderAll t.children, v ∈ preorderAll recorded) :
    ∃ low, Steady recorded (done ++ nodes) low (insertAll s root nodes) := by
  induction nodes generalizing done low root with
  | nil => exact ⟨low, by rwa [List.append_nil]⟩
  | cons t rest ih =>
    obtain ⟨hfirst, hrest⟩ := List.pairwise_cons.mp hstarts
    obtain ⟨hne, hown, hrecorded⟩ := hnodes t (List.mem_cons_self ..)
    have hnext := hroot.insert (s := s) (hbehind t (List.mem_cons_self ..)) hne hown hrecorded
    rw [List.append_cons]
    exact ih hnext hfirst hrest fun u hu => hnodes u (List.mem_cons_of_mem _ hu)

/-! ## Paths -/

/-- Among ranked siblings, the first that contains a span is the first that contains a
span inside it, unless an earlier one is a construct or starts before the outer span. -/
theorem find?_of_inside (hin : outer.contains inner = true) (hne : inner.start < inner.stop)
    (hcs : cs.Pairwise (Ranked done)) (hfind : cs.find? (isContainer outer) = some u)
    (hclear : ∀ v ∈ cs, isContainer inner v = true → isContainer outer v = false →
      v.head ∉ done.map Tree.head ∧ outer.start ≤ (ofTree v).start) :
    cs.find? (isContainer inner) = some u := by
  obtain ⟨hu, before, after, rfl, hbefore⟩ := List.find?_eq_some_iff_append.mp hfind
  obtain ⟨huleaf, hustart, hustop⟩ := isContainer_iff.mp hu
  obtain ⟨hstart, hstop⟩ := Span.contains_iff.mp hin
  refine List.find?_eq_some_iff_append.mpr ⟨?_, before, after, rfl, fun b hb => ?_⟩
  · exact isContainer_iff.mpr ⟨huleaf, by omega, by omega⟩
  rw [Bool.not_eq_true', ← Bool.not_eq_true]
  intro hinner
  have houter : isContainer outer b = false := (Bool.not_eq_true' _).mp (hbefore b hb)
  obtain ⟨hdone, hlow⟩ := hclear b (List.mem_append_left _ hb) hinner houter
  obtain ⟨hbleaf, hbstart, hbstop⟩ := isContainer_iff.mp hinner
  have hranked := (List.pairwise_append.mp hcs).2.2 b hb u (List.mem_cons_self ..)
  obtain ⟨hle, heq⟩ := hranked hbleaf hdone (by omega)
  -- it starts where the later one does, with the outer span, and would contain that as well
  rcases heq (by omega) with hleaf | hlt
  · rw [huleaf] at hleaf
    cases hleaf
  · rw [isContainer_iff.mpr ⟨hbleaf, by omega, by omega⟩] at houter
    cases houter

/-- **A span inside another takes its path**, unless a node that contains it and not the
other is a construct, or starts before the other. -/
theorem pathTo_of_inside (hin : outer.contains inner = true) (hne : inner.start < inner.stop)
    (hroot : Everywhere (Ranked done) root)
    (hclear : ∀ v ∈ preorderAll root.children, isContainer inner v = true →
      isContainer outer v = false → v.head ∉ done.map Tree.head ∧ outer.start ≤ (ofTree v).start) :
    pathTo outer root <+: pathTo inner root := by
  induction root using Tree.childrenInduction with
  | h root ih =>
    rw [pathTo_eq, pathTo_eq, pathBelow_eq, pathBelow_eq, List.prefix_cons_inj]
    cases hfind : root.children.find? (isContainer outer) with
    | none => exact List.nil_prefix
    | some u =>
      have hu := List.mem_of_find?_eq_some hfind
      have hbelow := Tree.mem_preorderAll_of_mem hu
      rw [find?_of_inside hin hne (Tree.everywhere_iff.mp hroot).1 hfind fun v hv =>
        hclear v (Tree.mem_preorderAll_of_mem hv)]
      exact ih u hu (hroot.below hbelow) fun v hv =>
        hclear v (Tree.mem_preorderAll_trans hbelow hv)

end SyntaxForest.Template
