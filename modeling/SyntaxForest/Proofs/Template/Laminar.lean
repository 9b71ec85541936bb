import Mathlib.Data.List.Pairwise
import SyntaxForest.Proofs.Template.Order
import SyntaxForest.Proofs.Template.Path

/-!
# Trees that follow their spans

In a tree that follows its spans (`Laid`), the children of a node lie inside it and share no
byte with each other, so that two nodes overlap only if one is below the other
(`Forest.mem_or_mem`). An insertion keeps this if each node that the new span overlaps lies
inside it or contains it, and if the code of the construct contains whatever it overlaps of
what the construct takes in (`insert_forest`).

The tree of a template is a forest below its root, since the root spans the file whatever the
parser found.
-/

namespace SyntaxForest.Template

open SyntaxForest.Template.Span (ofTree)
open SyntaxForest.Tree (preorderAll Everywhere)

variable {s : Source} {span : Span} {t u v w x c d root : Tree} {cs us old new : List Tree}

/-! ## Spans -/

namespace Span

variable {a b o : Span}

theorem overlaps_iff : a.overlaps b = true ↔ a.start < b.stop ∧ b.start < a.stop := by
  rw [overlaps, Bool.and_eq_true, decide_eq_true_iff, decide_eq_true_iff]

theorem overlaps_eq_false_iff : a.overlaps b = false ↔ b.stop ≤ a.start ∨ a.stop ≤ b.start := by
  rw [overlaps, Bool.and_eq_false_iff, decide_eq_false_iff_not, decide_eq_false_iff_not,
    Int.not_lt, Int.not_lt]

theorem overlaps_comm (a b : Span) : a.overlaps b = b.overlaps a := Bool.and_comm ..

/-- The whole overlaps what a part of it overlaps. -/
theorem whole_overlaps (ho : o.contains a = true) (hab : a.overlaps b = true) :
    o.overlaps b = true := by
  rw [contains_iff] at ho
  rw [overlaps_iff] at *
  omega

/-- What overlaps a part overlaps the whole. -/
theorem overlaps_whole (ho : o.contains a = true) (hba : b.overlaps a = true) :
    b.overlaps o = true := by
  rw [overlaps_comm] at hba ⊢
  exact whole_overlaps ho hba

/-- What a span holds, each span around it holds. -/
theorem contains_trans (hoa : o.contains a = true) (hab : a.contains b = true) :
    o.contains b = true := by
  rw [contains_iff] at *
  omega

end Span

/-- **Two nodes share no byte.** -/
def Separate (a b : Tree) : Prop := (ofTree a).overlaps (ofTree b) = false

/-- Two nodes are separate if one ends in front of the other. -/
theorem separate_iff :
    Separate c d ↔ (ofTree d).stop ≤ (ofTree c).start ∨ (ofTree c).stop ≤ (ofTree d).start :=
  Span.overlaps_eq_false_iff

theorem Separate.symm (h : Separate c d) : Separate d c := by
  rw [separate_iff] at *
  exact h.symm

instance : Std.Symm Separate := ⟨fun _ _ h => h.symm⟩

/-- What lies inside separate nodes is separate. -/
theorem Separate.of_contains (h : Separate c d) (hu : (ofTree c).contains (ofTree u) = true)
    (hv : (ofTree d).contains (ofTree v) = true) : Separate u v := by
  rw [separate_iff] at *
  rw [Span.contains_iff] at hu hv
  omega

/-! ## Children inside their parents -/

/-- **Every child lies inside its parent.** -/
def Enclosed (t : Tree) : Prop :=
  ∀ u ∈ t.preorder, ∀ c ∈ u.children, (ofTree u).contains (ofTree c) = true

instance : DecidablePred Enclosed := fun t => inferInstanceAs
  (Decidable (∀ u ∈ t.preorder, ∀ c ∈ u.children, (ofTree u).contains (ofTree c) = true))

theorem enclosed_iff : Enclosed t
    ↔ ∀ c ∈ t.children, (ofTree t).contains (ofTree c) = true ∧ Enclosed c := by
  rw [Enclosed, forall_preorder_iff, forall_preorderAll_iff, ← forall₂_and]
  rfl

theorem Enclosed.of_mem (h : Enclosed t) (hu : u ∈ t.preorder) : Enclosed u :=
  fun v hv => h v (Tree.mem_preorder_trans hu hv)

/-! ## Laid trees -/

/-- **A tree that follows its spans.** -/
structure Laid (t : Tree) : Prop where
  separate : Everywhere Separate t
  inside : ∀ u ∈ t.preorder, ∀ c ∈ u.children, (ofTree u).contains (ofTree c) = true

/-- **Trees that follow their spans**, side by side. -/
structure Forest (cs : List Tree) : Prop where
  separate : cs.Pairwise Separate
  laid : ∀ c ∈ cs, Laid c

theorem laid_iff :
    Laid t ↔ Forest t.children ∧ ∀ c ∈ t.children, (ofTree t).contains (ofTree c) = true := by
  constructor
  · intro h
    obtain ⟨hpair, hall⟩ := Tree.everywhere_iff.mp h.separate
    have hinside := enclosed_iff.mp h.inside
    exact ⟨⟨hpair, fun c hc => ⟨hall c hc, (hinside c hc).2⟩⟩, fun c hc => (hinside c hc).1⟩
  · rintro ⟨⟨hpair, hall⟩, hinside⟩
    exact ⟨Tree.everywhere_iff.mpr ⟨hpair, fun c hc => (hall c hc).separate⟩,
      enclosed_iff.mpr fun c hc => ⟨hinside c hc, (hall c hc).inside⟩⟩

theorem Laid.of_mem (h : Laid t) (hu : u ∈ t.preorder) : Laid u :=
  ⟨fun v hv => h.separate v (Tree.mem_preorder_trans hu hv),
    fun v hv => h.inside v (Tree.mem_preorder_trans hu hv)⟩

theorem Forest.of_mem (h : Forest cs) (hu : u ∈ preorderAll cs) : Laid u := by
  rw [Tree.preorderAll_eq_flatMap, List.mem_flatMap] at hu
  obtain ⟨c, hc, huc⟩ := hu
  exact (h.laid c hc).of_mem huc

/-- A node contains all that is below it. -/
theorem Laid.contains (h : Laid t) (hu : u ∈ t.preorder) :
    (ofTree t).contains (ofTree u) = true := by
  induction t using Tree.childrenInduction with
  | h t ih =>
    rw [Tree.preorder_eq, List.mem_cons] at hu
    rcases hu with rfl | hu
    · exact Span.contains_iff.mpr ⟨Int.le_refl _, Int.le_refl _⟩
    · rw [Tree.preorderAll_eq_flatMap, List.mem_flatMap] at hu
      obtain ⟨c, hc, huc⟩ := hu
      obtain ⟨hforest, hinside⟩ := laid_iff.mp h
      exact Span.contains_trans (hinside c hc) (ih c hc (hforest.laid c hc) huc)

/-- A text is laid. -/
theorem laid_of_isTextLeaf (h : isTextLeaf t = true) : Laid t := by
  have hnil : t.children = [] := List.isEmpty_iff.mp (Bool.and_eq_true_iff.mp h).2
  rw [laid_iff, hnil]
  exact ⟨⟨.nil, nofun⟩, nofun⟩

/-- Two nodes of different trees are separate, so that those of one tree decide. -/
theorem Forest.mem_or_mem_of (h : Forest cs)
    (hown : ∀ c ∈ cs, ∀ u ∈ c.preorder, ∀ v ∈ c.preorder,
      (ofTree u).overlaps (ofTree v) = true → u ∈ v.preorder ∨ v ∈ u.preorder)
    (hu : u ∈ preorderAll cs) (hv : v ∈ preorderAll cs)
    (hover : (ofTree u).overlaps (ofTree v) = true) : u ∈ v.preorder ∨ v ∈ u.preorder := by
  rw [Tree.preorderAll_eq_flatMap, List.mem_flatMap] at hu hv
  obtain ⟨c, hc, huc⟩ := hu
  obtain ⟨d, hd, hvd⟩ := hv
  by_cases hcd : c = d
  · subst hcd
    exact hown c hc u huc v hvd hover
  · have hsep : Separate u v := (h.separate.forall hc hd hcd).of_contains
      ((h.laid c hc).contains huc) ((h.laid d hd).contains hvd)
    rw [Separate, hover] at hsep
    cases hsep

/-- **In a laid tree** two nodes that overlap are one below the other. -/
theorem Laid.mem_or_mem (h : Laid t) : ∀ u ∈ t.preorder, ∀ v ∈ t.preorder,
    (ofTree u).overlaps (ofTree v) = true → u ∈ v.preorder ∨ v ∈ u.preorder := by
  induction t using Tree.childrenInduction with
  | h t ih =>
    intro u hu v hv hover
    obtain ⟨hforest, -⟩ := laid_iff.mp h
    rw [Tree.preorder_eq, List.mem_cons] at hu hv
    rcases hu with rfl | hu
    · exact .inr (Tree.preorder_eq u ▸ List.mem_cons.mpr hv)
    · rcases hv with rfl | hv
      · exact .inl (Tree.mem_preorder_of_below hu)
      · exact hforest.mem_or_mem_of (fun c hc => ih c hc (hforest.laid c hc)) hu hv hover

/-- **Two nodes overlap only if one is below the other.** -/
theorem Forest.mem_or_mem (h : Forest cs) (hu : u ∈ preorderAll cs) (hv : v ∈ preorderAll cs)
    (hover : (ofTree u).overlaps (ofTree v) = true) : u ∈ v.preorder ∨ v ∈ u.preorder :=
  h.mem_or_mem_of (fun c hc => (h.laid c hc).mem_or_mem) hu hv hover

/-! ## A change at the end of the way -/

/-- One tree of a forest is replaced by another with its span. -/
theorem Forest.replace {before after : List Tree} {u' : Tree}
    (h : Forest (before ++ u :: after)) (hspan : ofTree u' = ofTree u) (hu : Laid u') :
    Forest (before ++ u' :: after) := by
  obtain ⟨hpair, hlaid⟩ := h
  refine ⟨?_, fun c hc => ?_⟩
  · rw [List.pairwise_append, List.pairwise_cons] at hpair ⊢
    unfold Separate at hpair ⊢
    rw [hspan]
    refine ⟨hpair.1, hpair.2.1, fun b hb a ha => ?_⟩
    rcases List.mem_cons.mp ha with rfl | ha
    · rw [hspan]
      exact hpair.2.2 b hb u (List.mem_cons_self ..)
    · exact hpair.2.2 b hb a (List.mem_cons_of_mem _ ha)
  · rw [List.mem_append, List.mem_cons] at hc
    rcases hc with hc | rfl | hc
    · exact hlaid c (by simp [hc])
    · exact hu
    · exact hlaid c (by simp [hc])

namespace AtHome

variable {t' : Tree}

/-- The children that are replaced are a forest of their own. -/
theorem old_forest (hin : AtHome span old new t t') (ht : Forest t.children) : Forest old := by
  obtain ⟨v, hv, rfl⟩ := hin.exists_children.1
  rw [Tree.preorder_eq, List.mem_cons] at hv
  rcases hv with rfl | hv
  · exact ht
  · exact (laid_iff.mp (ht.of_mem hv)).1

/-- **The children stay inside** if what holds the span and the old children holds the new
ones. -/
theorem enclosed (hin : AtHome span old new t t') (ht : Enclosed t)
    (hspan : (ofTree t).contains span = true) (hnew : ∀ c ∈ new, Enclosed c)
    (hbounds : ∀ c ∈ new, ∀ o : Span, o.contains span = true →
      (∀ d ∈ old, o.contains (ofTree d) = true) → o.contains (ofTree c) = true) :
    Enclosed t' := by
  induction hin with
  | here =>
    have hinside := enclosed_iff.mp ht
    exact enclosed_iff.mpr fun c hc =>
      ⟨hbounds c hc _ hspan fun d hd => (hinside d hd).1, hnew c hc⟩
  | @under kind props before after u u' hnone hu hin ih =>
    have hinside := enclosed_iff.mp ht
    obtain ⟨hwithin, hbelow⟩ := hinside u (List.mem_append_right _ (List.mem_cons_self ..))
    refine enclosed_iff.mpr fun c hc => ?_
    change c ∈ before ++ u' :: after at hc
    rw [List.mem_append, List.mem_cons] at hc
    rcases hc with hc | rfl | hc
    · exact hinside c (List.mem_append_left _ hc)
    · rw [hin.ofTree_eq]
      exact ⟨hwithin, ih hbelow (Span.contains_iff.mpr (isContainer_iff.mp hu).2)⟩
    · exact hinside c (List.mem_append_right _ (List.mem_cons_of_mem _ hc))

theorem old_enclosed (hin : AtHome span old new t t') (ht : Enclosed t) :
    ∀ c ∈ old, Enclosed c := by
  obtain ⟨v, hv, rfl⟩ := hin.exists_children.1
  exact fun c hc => ((enclosed_iff.mp (ht.of_mem hv)) c hc).2

/-- A tree that contains the span follows its spans after the change if the new children do and
lie inside what contains the span and the old ones. -/
theorem laid (hin : AtHome span old new t t') (ht : Laid t)
    (hspan : (ofTree t).contains span = true) (hnew : Forest new)
    (hbounds : ∀ c ∈ new, ∀ o : Span, o.contains span = true →
      (∀ d ∈ old, o.contains (ofTree d) = true) → o.contains (ofTree c) = true) : Laid t' := by
  refine ⟨hin.everywhere ht.separate hnew.separate (fun c hc => (hnew.laid c hc).separate) ?_,
    hin.enclosed ht.inside hspan (fun c hc => (hnew.laid c hc).inside) hbounds⟩
  intro u _ u' _ hway x _
  rw [Separate, Separate, Separate, Separate, hway.ofTree_eq]
  exact ⟨id, id⟩

/-- **A forest follows its spans after the change.** -/
theorem forest (hin : AtHome span old new t t') (ht : Forest t.children) (hnew : Forest new)
    (hbounds : ∀ c ∈ new, ∀ o : Span, o.contains span = true →
      (∀ d ∈ old, o.contains (ofTree d) = true) → o.contains (ofTree c) = true) :
    Forest t'.children := by
  cases hin with
  | here => exact hnew
  | @under kind props before after u u' hnone hu hin =>
    refine ht.replace hin.ofTree_eq (hin.laid (ht.laid u ?_) ?_ hnew hbounds)
    · show u ∈ before ++ u :: after
      simp
    · exact Span.contains_iff.mpr (isContainer_iff.mp hu).2

end AtHome

/-! ## Placing -/

/-- **A node that contains another if it overlaps it.** -/
def Fits (c d : Tree) : Prop := (ofTree d).overlaps (ofTree c) = true →
  isTextLeaf d = false ∧ (ofTree d).contains (ofTree c) = true

theorem fits_ofHead : OfHead (Fits c) := by
  intro u u' hhead _ hu' h hover
  have hspan := ofTree_of_head hhead
  rw [hspan] at hover ⊢
  exact ⟨hu', (h hover).2⟩

theorem fits_of_separate (h : Separate d c) : Fits c d := by
  intro hover
  rw [Separate, hover] at h
  cases h

/-- **A node placed in a tree that fits it.** -/
theorem place_laid (hw : Laid w) (hc : Laid c) (hinside : (ofTree w).contains (ofTree c) = true)
    (hfits : ∀ d ∈ preorderAll w.children, Fits c d) : Laid (place c w) := by
  have hat := place_atHome c w
  obtain ⟨hpair, hlaid⟩ := hat.old_forest (laid_iff.mp hw).1
  -- where the node comes to stand, nothing contains it any more
  have hsep : ∀ d ∈ siblingsAt (ofTree c) w, Separate d c := by
    intro d hd
    by_contra hover
    obtain ⟨hleaf, hcontains⟩ := hfits d (hat.mem_of_old (Tree.mem_preorderAll_of_mem hd))
      (eq_true_of_ne_false hover)
    exact not_contains_of_isContainer (hat.old_none d hd) hleaf hcontains
  refine hat.laid hw hinside ⟨?_, fun d hd => ?_⟩ fun d hd o ho hall => ?_
  · rw [insertByStart_eq]
    refine pairwise_around ?_ (fun b hb => ?_) fun a ha => ?_
    · rwa [List.takeWhile_append_dropWhile]
    · exact hsep b ((List.takeWhile_sublist _).subset hb)
    · exact (hsep a ((List.dropWhile_sublist _).subset ha)).symm
  · rcases mem_insertByStart.mp hd with rfl | hd
    · exact hc
    · exact hlaid d hd
  · rcases mem_insertByStart.mp hd with rfl | hd
    · exact ho
    · exact hall d hd

/-- Separate nodes are placed one after another. -/
theorem foldl_place_laid (hw : Laid w) (hus : Forest us)
    (hinside : ∀ u ∈ us, (ofTree w).contains (ofTree u) = true)
    (hfits : ∀ u ∈ us, ∀ d ∈ preorderAll w.children, Fits u d) :
    Laid (us.foldl (fun t u => place u t) w) := by
  induction us generalizing w with
  | nil => exact hw
  | cons u us ih =>
    obtain ⟨hpair, hlaid⟩ := hus
    obtain ⟨hfirst, hpair⟩ := List.pairwise_cons.mp hpair
    rw [List.forall_mem_cons] at hlaid hinside hfits
    refine ih (place_laid hw hlaid.1 hinside.1 hfits.1) ⟨hpair, hlaid.2⟩ (fun v hv => ?_)
      fun v hv => ?_
    · rw [ofTree_of_head (place_head u w)]
      exact hinside.2 v hv
    -- what was placed before is separate from what is still to be placed
    · refine forall_place fits_ofHead (hfits.2 v hv) fun d hd => fits_of_separate ?_
      exact (hfirst v hv).of_contains (hlaid.1.contains hd)
        (Span.contains_iff.mpr ⟨Int.le_refl _, Int.le_refl _⟩)

/-! ## Inserting -/

/-- What a sibling becomes lies inside it. -/
theorem contains_of_mem_cutAt {cut : Span} {q : Tree} (hcut : cut.start ≤ cut.stop)
    (hq : q ∈ cutAt s cut t) : (ofTree t).contains (ofTree q) = true := by
  rcases mem_cutAt hcut hq with ⟨rfl, -⟩ | ⟨-, hpiece⟩
  · exact Span.contains_iff.mpr ⟨Int.le_refl _, Int.le_refl _⟩
  · exact Span.contains_iff.mpr ⟨hpiece.low, hpiece.high⟩

theorem laid_of_mem_cutAt {cut : Span} {q : Tree} (hcut : cut.start ≤ cut.stop) (ht : Laid t)
    (hq : q ∈ cutAt s cut t) : Laid q := by
  rcases mem_cutAt hcut hq with ⟨rfl, -⟩ | ⟨-, hpiece⟩
  · exact ht
  · exact laid_of_isTextLeaf hpiece.leaf

/-- Siblings that are separate stay so when they are cut. -/
theorem cutSiblings_separate (hcut : (ofTree t).start ≤ (ofTree t).stop)
    (h : cs.Pairwise Separate) : (cutSiblings s t cs).Pairwise Separate := by
  rw [cutSiblings, List.pairwise_flatMap]
  refine ⟨fun c _ => (cutAt_pairwise s c hcut).imp fun hab => ?_, h.imp ?_⟩
  · exact separate_iff.mpr (.inr hab.2)
  · intro a b hab p hp q hq
    exact hab.of_contains (contains_of_mem_cutAt hcut hp) (contains_of_mem_cutAt hcut hq)

/-- **What an insertion may meet**: nodes that contain the new span or lie inside it. -/
def Meets (span : Span) (v : Tree) : Prop := isTextLeaf v = false →
  (ofTree v).overlaps span = true →
    (ofTree v).contains span = true ∨ span.contains (ofTree v) = true

/-- **What stays outside a construct is separate from it.** -/
theorem separate_of_outsideOf (hcut : (ofTree t).start ≤ (ofTree t).stop)
    (hnone : ∀ u ∈ cs, isContainer (ofTree t) u = false) (hmeets : ∀ u ∈ cs, Meets (ofTree t) u)
    (hc : c ∈ outsideOf s t cs) : Separate c t := by
  obtain ⟨⟨d, hd, hcd⟩, hout⟩ := mem_outsideOf.mp hc
  rcases mem_cutAt hcut hcd with ⟨rfl, hclear⟩ | ⟨-, hpiece⟩
  · cases hleaf : isTextLeaf c with
    | true => exact hclear hleaf
    | false =>
      by_contra hover
      rcases hmeets c hd hleaf (eq_true_of_ne_false hover) with hcontains | hinside
      · exact not_contains_of_isContainer (hnone c hd) hleaf hcontains
      · rw [hout] at hinside
        cases hinside
  · rw [separate_iff]
    rcases hpiece.clear with hbefore | hinside | hafter
    · exact .inr hbefore
    · rw [hout] at hinside
      cases hinside
    · exact .inl hafter

/-- **An insertion keeps a forest.** -/
theorem insert_forest (hcut : (ofTree t).start ≤ (ofTree t).stop) (ht : Laid t)
    (hroot : Forest root.children) (hmeets : ∀ v ∈ preorderAll root.children, Meets (ofTree t) v)
    (hfits : ∀ c ∈ insideOf s t (siblingsAt (ofTree t) root), ∀ d ∈ preorderAll t.children,
      Fits c d) : Forest (insert s t root).children := by
  have hat := insert_atHome s t root
  have hforest := hat.old_forest hroot
  have hcutForest : Forest (cutSiblings s t (siblingsAt (ofTree t) root)) := by
    refine ⟨cutSiblings_separate hcut hforest.separate, fun c hc => ?_⟩
    obtain ⟨d, hd, hcd⟩ := mem_cutSiblings.mp hc
    exact laid_of_mem_cutAt hcut (hforest.laid d hd) hcd
  have hwhole : Laid (wholeOf s t (siblingsAt (ofTree t) root)) := by
    refine foldl_place_laid ht ⟨hcutForest.separate.sublist List.filter_sublist, fun c hc =>
      hcutForest.laid c (List.mem_of_mem_filter hc)⟩ (fun c hc => ?_) hfits
    exact (mem_insideOf.mp hc).2
  have hspan := ofTree_of_head (wholeOf_head s t (siblingsAt (ofTree t) root))
  have hout : ∀ c ∈ outsideOf s t (siblingsAt (ofTree t) root),
      Separate c (wholeOf s t (siblingsAt (ofTree t) root)) := by
    intro c hc
    rw [Separate, hspan]
    refine separate_of_outsideOf hcut hat.old_none (fun u hu => hmeets u ?_) hc
    exact hat.mem_of_old (Tree.mem_preorderAll_of_mem hu)
  refine hat.forest hroot ⟨insertAmong_pairwise ?_ (fun b hb _ => hout b hb) fun a ha => ?_,
    fun c hc => ?_⟩ fun c hc o ho hall => ?_
  · exact hcutForest.separate.sublist List.filter_sublist
  · exact (hout a ((List.dropWhile_sublist _).subset ha)).symm
  · rcases mem_insertAmong hc with rfl | hc
    · exact hwhole
    · exact hcutForest.laid c (List.mem_of_mem_filter hc)
  · rcases mem_insertAmong hc with rfl | hc
    · rwa [hspan]
    · obtain ⟨⟨d, hd, hcd⟩, -⟩ := mem_outsideOf.mp hc
      exact Span.contains_trans (hall d hd) (contains_of_mem_cutAt hcut hcd)

end SyntaxForest.Template
