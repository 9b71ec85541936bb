import Mathlib.Data.List.Pairwise
import SyntaxForest.Proofs.Template.Order

/-!
# Text that no other node starts inside

A merge stays in order if no recorded node starts inside a text leaf, unless the leaf
lies below it (`Unpierced`). The argument is an invariant of the run. A construct may
well start inside a leaf: the leaf is cut if it stands among the construct's siblings,
and stays whole if it does not. But constructs are inserted in the order of their
starts, so what starts behind the last one, `low`, is recorded, and no leaf is pierced
by it. `Free low` says that of two nodes, `Beside low` of siblings and all that is
below them, and `Tidy low` of a tree and of the code that is still to come.
-/

namespace SyntaxForest.Template

open SyntaxForest.Template.Span (ofTree)
open SyntaxForest.Tree (preorderAll Everywhere)

variable {s : Source} {low low' : Int} {t u v w x y z a b root : Tree} {cs pending : List Tree}

/-- A node starts inside a text leaf. -/
def StartsInside (y x : Tree) : Prop :=
  isTextLeaf x = true ∧ (ofTree x).start ≤ (ofTree y).start ∧ (ofTree y).start < (ofTree x).stop

/-- **No node of either tree starts inside a text leaf of the other.** -/
def Unmixed (a b : Tree) : Prop :=
  ∀ x ∈ a.preorder, ∀ y ∈ b.preorder, ¬ StartsInside x y ∧ ¬ StartsInside y x

/-- **No node starts inside a text leaf that is not below it.** -/
def Unpierced (trees : List Tree) : Prop :=
  trees.Pairwise Unmixed ∧ ∀ u ∈ preorderAll trees, u.children.Pairwise Unmixed

instance : DecidableRel StartsInside := fun y x =>
  inferInstanceAs (Decidable (isTextLeaf x = true ∧ (ofTree x).start ≤ (ofTree y).start
    ∧ (ofTree y).start < (ofTree x).stop))

instance : DecidableRel Unmixed := fun a b =>
  inferInstanceAs (Decidable (∀ x ∈ a.preorder, ∀ y ∈ b.preorder,
    ¬ StartsInside x y ∧ ¬ StartsInside y x))

instance : DecidablePred Unpierced := fun trees =>
  inferInstanceAs (Decidable (trees.Pairwise Unmixed
    ∧ ∀ u ∈ preorderAll trees, u.children.Pairwise Unmixed))

/-! ## Two nodes -/

/-- Neither of two nodes starts inside the other; one that starts at or before `low`
is exempt unless it is a text leaf itself. -/
def Free (low : Int) (x y : Tree) : Prop :=
  (isTextLeaf y = true ∨ low < (ofTree y).start → ¬ StartsInside y x)
    ∧ (isTextLeaf x = true ∨ low < (ofTree x).start → ¬ StartsInside x y)

theorem Free.symm (h : Free low x y) : Free low y x := ⟨h.2, h.1⟩

theorem Free.mono (h : Free low x y) (hl : low ≤ low') : Free low' x y :=
  ⟨fun hy => h.1 (hy.imp_right fun hlt => Int.lt_of_le_of_lt hl hlt),
    fun hx => h.2 (hx.imp_right fun hlt => Int.lt_of_le_of_lt hl hlt)⟩

/-- An exempt node that is no text leaf is free of every other. -/
theorem Free.exempt (hx : isTextLeaf x = false) (hlow : (ofTree x).start ≤ low) :
    Free low x y := by
  constructor
  · rintro - ⟨hleaf, -⟩
    rw [hx] at hleaf
    cases hleaf
  · rintro (hleaf | hlt) -
    · rw [hx] at hleaf
      cases hleaf
    · omega

theorem free_ofHead : OfHead (Free low · y) := by
  intro u u' hhead hu hu' h
  have hspan := ofTree_of_head hhead
  constructor
  · rintro - ⟨hleaf, -⟩
    rw [hu'] at hleaf
    cases hleaf
  · rintro (hleaf | hlt) hin
    · rw [hu'] at hleaf
      cases hleaf
    · unfold StartsInside at hin
      rw [hspan] at hlt hin
      exact h.2 (.inr hlt) hin

/-- A piece of a text is free of what the text is free of. -/
theorem free_inherited (cut : Span) : Inherited cut (Free low · y) := by
  intro x q hx hq h
  have hlow := hq.low
  have hhigh := hq.high
  have hne := hq.nonempty
  constructor
  · rintro hy ⟨-, hstart, hstop⟩
    exact h.1 hy ⟨hx, by omega, by omega⟩
  · rintro - ⟨hleaf, hstart, hstop⟩
    -- both are text: the one that starts first would hold the start of the other
    by_cases hlt : (ofTree x).start < (ofTree y).start
    · exact h.1 (.inl hleaf) ⟨hx, by omega, by omega⟩
    · exact h.2 (.inl hx) ⟨hleaf, by omega, by omega⟩

/-! ## Siblings -/

/-- Two trees are free of each other, node by node. -/
def Apart (low : Int) (a b : Tree) : Prop := ∀ x ∈ a.preorder, ∀ y ∈ b.preorder, Free low x y

theorem Apart.symm (h : Apart low a b) : Apart low b a := fun y hy x hx => (h x hx y hy).symm

instance : Std.Symm (Apart low) := ⟨fun _ _ h => h.symm⟩

theorem Apart.mono (h : Apart low a b) (hl : low ≤ low') : Apart low' a b :=
  fun x hx y hy => (h x hx y hy).mono hl

theorem Unmixed.apart (h : Unmixed a b) : Apart low a b :=
  fun x hx y hy => ⟨fun _ => (h x hx y hy).2, fun _ => (h x hx y hy).1⟩

/-- What cuts make of two trees is as free as they are. -/
theorem Apart.cutAt {cut : Span} {p q : Tree} (h : Apart low a b) (hcut : cut.start ≤ cut.stop)
    (hp : p ∈ cutAt s cut a) (hq : q ∈ cutAt s cut b) : Apart low p q := by
  have hleft : ∀ y ∈ b.preorder, ∀ x ∈ p.preorder, Free low x y := fun y hy =>
    forall_cutAt hcut ((free_inherited cut).kept hcut) (fun x hx => h x hx y hy) hp
  have hright : ∀ x ∈ p.preorder, ∀ y ∈ q.preorder, Free low y x := fun x hx =>
    forall_cutAt hcut ((free_inherited cut).kept hcut) (fun y hy => (hleft y hy x hx).symm) hq
  exact fun x hx y hy => (hright x hx y hy).symm

/-- **How siblings stand**: in order, with nothing that starts inside the text of an
earlier one. -/
def Abreast (a b : Tree) : Prop :=
  (ofTree a).start ≤ (ofTree b).start
    ∧ (isTextLeaf a = true → (ofTree a).stop ≤ (ofTree b).start)

theorem Precedes.abreast (h : Precedes a b) : Abreast a b :=
  ⟨Int.le_trans h.1 h.2, fun _ => h.2⟩

/-- Siblings in order and free of each other. -/
def Beside (low : Int) (a b : Tree) : Prop := Abreast a b ∧ Apart low a b

theorem Beside.mono (h : Beside low a b) (hl : low ≤ low') : Beside low' a b :=
  ⟨h.1, h.2.mono hl⟩

/-- What a cut makes of one sibling, as siblings of each other. -/
theorem beside_cutAt (s : Source) (t : Tree) {cut : Span} (hcut : cut.start ≤ cut.stop) :
    (cutAt s cut t).Pairwise (Beside low) := by
  unfold cutAt
  dsimp only
  split
  · obtain ⟨hpieces, hpair⟩ := cutText_spec s (ofTree t) hcut
    refine hpair.imp_of_mem fun {p q} hp hq hpq => ?_
    have hp := hpieces p hp
    have hq := hpieces q hq
    have hpne := hp.nonempty
    have hqne := hq.nonempty
    refine ⟨⟨by omega, fun _ => hpq⟩, ?_⟩
    unfold Apart
    rw [preorder_of_isTextLeaf hp.leaf, preorder_of_isTextLeaf hq.leaf]
    simp only [List.forall_mem_singleton]
    constructor
    · rintro - ⟨-, hstart, hstop⟩
      omega
    · rintro - ⟨-, hstart, hstop⟩
      omega
  · exact List.pairwise_singleton _ t

/-- What cuts make of two siblings. -/
theorem Beside.cutAt {cut : Span} {p q : Tree} (h : Beside low a b)
    (hcut : cut.start ≤ cut.stop) (hp : p ∈ cutAt s cut a) (hq : q ∈ cutAt s cut b) :
    Beside low p q := by
  refine ⟨?_, h.2.cutAt hcut hp hq⟩
  obtain ⟨hstart, hleaf⟩ := h.1
  have hqstart : (ofTree b).start ≤ (ofTree q).start := by
    rcases mem_cutAt hcut hq with ⟨rfl, -⟩ | ⟨-, hpiece⟩
    · exact Int.le_refl _
    · exact hpiece.low
  rcases mem_cutAt hcut hp with ⟨rfl, -⟩ | ⟨ha, hpiece⟩
  · exact ⟨by omega, fun hp => Int.le_trans (hleaf hp) hqstart⟩
  · have hstop := hleaf ha
    have := hpiece.high
    have := hpiece.nonempty
    exact ⟨by omega, fun _ => by omega⟩

/-- Siblings beside one another stay so when they are cut. -/
theorem cutSiblings_beside (hcut : (ofTree t).start ≤ (ofTree t).stop)
    (h : cs.Pairwise (Beside low)) : (cutSiblings s t cs).Pairwise (Beside low) := by
  rw [cutSiblings, List.pairwise_flatMap]
  refine ⟨fun c _ => beside_cutAt s c hcut, h.imp ?_⟩
  intro a b hab p hp q hq
  exact hab.cutAt hcut hp hq

/-! ## Placing -/

/-- A tree is apart from a node on the way if it was before and if it is apart from
what is put at the end. -/
theorem Apart.atHome {span : Span} {old new : List Tree} {u' : Tree} (h : Apart low x u)
    (hat : AtHome span old new u u') (hu : isContainer span u = true) (hne : new ≠ [])
    (hnew : ∀ z ∈ x.preorder, ∀ y ∈ preorderAll new, Free low y z) : Apart low x u' := by
  intro z hz
  refine forall_preorder_iff.mpr ⟨?_, ?_⟩
  · have hself : Free low u z := (h z hz u u.mem_preorder_self).symm
    exact (free_ofHead u u' hat.head_eq (isContainer_iff.mp hu).1 (hat.not_isTextLeaf hne)
      hself).symm
  · intro y hy
    refine (hat.forall_mem free_ofHead hne (fun y hy => ?_) (hnew z hz) y hy).symm
    exact (h z hz y (Tree.mem_preorder_of_below hy)).symm

theorem Abreast.atHome {span : Span} {old new : List Tree} {u' : Tree}
    (hat : AtHome span old new u u') (hu : isContainer span u = true) (hne : new ≠ []) :
    (Abreast x u → Abreast x u') ∧ (Abreast u x → Abreast u' x) := by
  unfold Abreast
  rw [hat.ofTree_eq, (isContainer_iff.mp hu).1, hat.not_isTextLeaf hne]
  exact ⟨id, id⟩

/-- **A change at the end of the way keeps siblings beside each other** if the new
children are, and if what they hold is free of the tree. -/
theorem everywhere_beside {span : Span} {old new : List Tree} {t' : Tree}
    (hat : AtHome span old new t t') (ht : Everywhere (Beside low) t) (hne : new ≠ [])
    (hnew : new.Pairwise (Beside low)) (hbelow : ∀ c ∈ new, Everywhere (Beside low) c)
    (hfree : ∀ u ∈ preorderAll t.children, isContainer span u = true → ∀ u',
      AtHome span old new u u' → ∀ x ∈ preorderAll t.children, Apart low x u →
        ∀ z ∈ x.preorder, ∀ y ∈ preorderAll new, Free low y z) :
    Everywhere (Beside low) t' := by
  refine hat.everywhere ht hnew hbelow fun u hu u' hc hin x hx => ?_
  have habreast := Abreast.atHome (x := x) hin hc hne
  constructor
  · rintro ⟨hbreast, hapart⟩
    exact ⟨habreast.1 hbreast, hapart.atHome hin hc hne (hfree u hu hc u' hin x hx hapart)⟩
  · rintro ⟨hbreast, hapart⟩
    have h := hapart.symm.atHome hin hc hne (hfree u hu hc u' hin x hx hapart.symm)
    exact ⟨habreast.2 hbreast, h.symm⟩

/-- A node that starts behind `low` and is free of a tree is placed in it. -/
theorem place_beside (hw : Everywhere (Beside low) w) (hu : Everywhere (Beside low) u)
    (hlow : low < (ofTree u).start)
    (hfree : ∀ y ∈ preorderAll w.children, ∀ x ∈ u.preorder, Free low x y) :
    Everywhere (Beside low) (place u w) := by
  have hat := place_atHome u w
  obtain ⟨hpair, hall⟩ := hat.old_everywhere hw
  have hself := u.mem_preorder_self
  have hroots : ∀ c ∈ siblingsAt (ofTree u) w, c ∈ preorderAll w.children := fun c hc =>
    hat.mem_of_old (Tree.mem_preorderAll_of_mem hc)
  have hapart : ∀ c ∈ siblingsAt (ofTree u) w, Apart low u c := by
    intro c hc x hx
    refine forall_preorderAll_iff.mp (fun y hy => ?_) c hc
    exact hfree y (hat.mem_of_old hy) x hx
  refine everywhere_beside hat hw insertByStart_ne_nil ?_ (fun c hc => ?_)
    fun v _ _ v' hin x hx hxv z hz => forall_preorderAll_iff.mpr fun c hc y hy => ?_
  · refine insertByStart_pairwise hpair (hpair.imp fun h => h.1.1) (fun b hb hlt => ?_)
      fun a ha hle => ?_
    · refine ⟨⟨Int.le_of_lt hlt, fun hleaf => ?_⟩, (hapart b hb).symm⟩
      by_contra hstop
      exact (hfree b (hroots b hb) u hself).2 (.inr hlow)
        ⟨hleaf, Int.le_of_lt hlt, Int.not_le.mp hstop⟩
    · refine ⟨⟨hle, fun hleaf => ?_⟩, hapart a ha⟩
      by_contra hstop
      exact (hfree a (hroots a ha) u hself).1 (.inr (by omega))
        ⟨hleaf, hle, Int.not_le.mp hstop⟩
  · rcases mem_insertByStart.mp hc with rfl | hc
    · exact hu
    · exact hall c hc
  · rcases mem_insertByStart.mp hc with rfl | hc
    · exact hfree z (Tree.mem_preorderAll_of_preorder hx hz) y hy
    · have hyv : y ∈ preorderAll v.children := hin.mem_of_old
        (Tree.mem_preorderAll_of_preorder (Tree.mem_preorderAll_of_mem hc) hy)
      exact (hxv z hz y (Tree.mem_preorder_of_below hyv)).symm

/-- Nodes that start behind `low` and are apart are placed one after another. -/
theorem foldl_place_beside {us : List Tree} (hw : Everywhere (Beside low) w)
    (hpair : us.Pairwise (Apart low))
    (hus : ∀ u ∈ us, Everywhere (Beside low) u ∧ low < (ofTree u).start)
    (hfree : ∀ u ∈ us, ∀ y ∈ preorderAll w.children, ∀ x ∈ u.preorder, Free low x y) :
    Everywhere (Beside low) (us.foldl (fun t u => place u t) w) := by
  induction us generalizing w with
  | nil => exact hw
  | cons u us ih =>
    obtain ⟨hu, hrest⟩ := List.pairwise_cons.mp hpair
    obtain ⟨hself, hlow⟩ := hus u (List.mem_cons_self ..)
    refine ih (place_beside hw hself hlow (hfree u (List.mem_cons_self ..))) hrest
      (fun v hv => hus v (List.mem_cons_of_mem _ hv)) fun v hv y hy x hx => ?_
    refine (forall_place free_ofHead (fun z hz => ?_) (fun z hz => hu v hv z hz x hx) y hy).symm
    exact (hfree v (List.mem_cons_of_mem _ hv) z hz x hx).symm

/-! ## One insertion -/

/-- **A tree in which no text is pierced** by what starts behind `low`, nor by the code
that is still to come. -/
structure Tidy (low : Int) (pending : List Tree) (root : Tree) : Prop where
  siblings : Everywhere (Beside low) root
  ahead : ∀ v ∈ preorderAll root.children, ∀ w ∈ preorderAll pending, Free low v w

/-- **The next construct**: it begins behind the last one, and the code in it is free
of the code that comes later. -/
structure Next (low : Int) (pending : List Tree) (t : Tree) : Prop where
  behind : low < (ofTree t).start
  nonempty : (ofTree t).start < (ofTree t).stop
  kind_ne : t.kind ≠ "Text"
  own : Everywhere (Beside low) t
  ahead : ∀ v ∈ preorderAll t.children, ∀ w ∈ preorderAll pending, Free low v w

/-- **What a node takes over** leaves all below it beside one another. -/
theorem wholeOf_beside {siblings : List Tree} (ht : Next low pending t)
    (hpair : siblings.Pairwise (Beside low)) (hall : ∀ c ∈ siblings, Everywhere (Beside low) c)
    (hfree : ∀ x ∈ preorderAll siblings, ∀ y ∈ preorderAll t.children, Free low x y) :
    Everywhere (Beside low) (wholeOf s t siblings) := by
  have hcut := Int.le_of_lt ht.nonempty
  have hinside : (insideOf s t siblings).Pairwise (Beside low) :=
    (cutSiblings_beside hcut hpair).sublist List.filter_sublist
  refine foldl_place_beside ht.own (hinside.imp fun h => h.2) (fun u hu => ?_)
    fun u hu y hy => ?_
  · obtain ⟨⟨c, hc, huc⟩, hcontains⟩ := mem_insideOf.mp hu
    have hstart := (Span.contains_iff.mp hcontains).1
    exact ⟨everywhere_of_mem_cutAt hcut (hall c hc) huc, Int.lt_of_lt_of_le ht.behind hstart⟩
  · obtain ⟨⟨c, hc, huc⟩, -⟩ := mem_insideOf.mp hu
    exact forall_cutAt hcut ((free_inherited _).kept hcut)
      (fun x hx => forall_preorderAll_iff.mp (fun x hx => hfree x hx y hy) c hc x hx) huc

/-- A text outside the span of a node that starts before it ends before it. -/
theorem stop_le_of_outside {siblings : List Tree} (hne : (ofTree t).start < (ofTree t).stop)
    (hb : b ∈ outsideOf s t siblings) (hleaf : isTextLeaf b = true)
    (hlt : (ofTree b).start < (ofTree t).start) : (ofTree b).stop ≤ (ofTree t).start := by
  obtain ⟨⟨d, -, hbd⟩, hout⟩ := mem_outsideOf.mp hb
  rcases mem_cutAt (Int.le_of_lt hne) hbd with ⟨rfl, hoverlaps⟩ | ⟨-, hpiece⟩
  · have h := hoverlaps hleaf
    rw [Span.overlaps, Bool.and_eq_false_iff, decide_eq_false_iff_not,
      decide_eq_false_iff_not] at h
    omega
  · rcases hpiece.clear with h | h | h
    · exact h
    · rw [hout] at h
      cases h
    · omega

/-- The construct itself is exempt, once it is inserted. -/
theorem Next.exempt (ht : Next low pending t) {w y : Tree} (hw : w.head = t.head) :
    Free (ofTree t).start w y := by
  have hkind : w.kind = t.kind := congrArg Prod.fst hw
  refine .exempt (not_isTextLeaf_of_kind (hkind ▸ ht.kind_ne)) ?_
  exact Int.le_of_eq (congrArg Span.start (ofTree_of_head hw))

/-- The code of the next construct is free of the tree. -/
theorem Tidy.own (h : Tidy low (t.children ++ pending) root) :
    ∀ v ∈ preorderAll root.children, ∀ y ∈ preorderAll t.children, Free low v y :=
  fun v hv y hy => h.ahead v hv y (by
    rw [Tree.preorderAll_append]
    exact List.mem_append_left _ hy)

/-- What stands outside a construct is apart from it and from all that it takes in. -/
theorem Tidy.apart_wholeOf (h : Tidy low (t.children ++ pending) root) (ht : Next low pending t) :
    ∀ c ∈ outsideOf s t (siblingsAt (ofTree t) root),
      Apart (ofTree t).start c (wholeOf s t (siblingsAt (ofTree t) root)) := by
  have hat := insert_atHome s t root
  have hcut := Int.le_of_lt ht.nonempty
  have hle := Int.le_of_lt ht.behind
  have hcutPair := cutSiblings_beside (s := s) hcut (hat.old_everywhere h.siblings).1
  intro c hc x hx
  obtain ⟨⟨d, hd, hcd⟩, hout⟩ := mem_outsideOf.mp hc
  refine forall_preorder_iff.mpr ⟨(ht.exempt (wholeOf_head ..)).symm, fun y hy => ?_⟩
  refine (forall_wholeOf free_ofHead (fun y hy => ?_) (fun u hu y hy => ?_) y hy).symm
  · have hfree : Free low x y := forall_cutAt hcut ((free_inherited _).kept hcut) (fun z hz =>
      h.own z (hat.mem_of_old (Tree.mem_preorderAll_of_preorder
        (Tree.mem_preorderAll_of_mem hd) hz)) y hy) hcd x hx
    exact (hfree.mono hle).symm
  · obtain ⟨⟨e, he, hue⟩, hcontains⟩ := mem_insideOf.mp hu
    have hne : u ≠ c := by
      rintro rfl
      rw [hout] at hcontains
      cases hcontains
    have hapart : Apart low u c := (hcutPair.imp fun h => h.2).forall
      (mem_cutSiblings.mpr ⟨e, he, hue⟩) (mem_cutSiblings.mpr ⟨d, hd, hcd⟩) hne
    exact (hapart y hy x hx).mono hle

/-- The siblings among which a construct is put. -/
theorem Tidy.insertAmong_pairwise (h : Tidy low (t.children ++ pending) root)
    (ht : Next low pending t) : (insertAmong s t (siblingsAt (ofTree t) root)).Pairwise
      (Beside (ofTree t).start) := by
  have hwhole := h.apart_wholeOf (s := s) ht
  have hspan := ofTree_of_head (wholeOf_head s t (siblingsAt (ofTree t) root))
  have hout : (outsideOf s t (siblingsAt (ofTree t) root)).Pairwise (Beside low) :=
    (cutSiblings_beside (Int.le_of_lt ht.nonempty)
      ((insert_atHome s t root).old_everywhere h.siblings).1).sublist List.filter_sublist
  refine Template.insertAmong_pairwise (hout.imp fun h => h.mono (Int.le_of_lt ht.behind))
    (fun b hb hlt => ⟨⟨?_, fun hleaf => ?_⟩, hwhole b hb⟩) fun a ha =>
      ⟨⟨?_, fun hleaf => ?_⟩, (hwhole a ((List.dropWhile_sublist _).subset ha)).symm⟩
  · rw [hspan]
    exact Int.le_of_lt hlt
  · rw [hspan]
    exact stop_le_of_outside ht.nonempty hb hleaf hlt
  · rw [hspan]
    exact le_start_of_dropWhile (hout.imp fun h => h.1.1) ha
  · have hkind : (wholeOf s t (siblingsAt (ofTree t) root)).kind = t.kind :=
      congrArg Prod.fst (wholeOf_head ..)
    rw [not_isTextLeaf_of_kind (hkind ▸ ht.kind_ne)] at hleaf
    cases hleaf

/-- **One insertion keeps a tree tidy.** -/
theorem Tidy.insert (h : Tidy low (t.children ++ pending) root) (ht : Next low pending t) :
    Tidy (ofTree t).start pending (insert s t root) := by
  have hat := insert_atHome s t root
  have hcut := Int.le_of_lt ht.nonempty
  have hle := Int.le_of_lt ht.behind
  obtain ⟨hpair, hall⟩ := hat.old_everywhere h.siblings
  constructor
  · refine everywhere_beside hat (h.siblings.imp fun _ _ h => h.mono hle)
      (insertAmong_ne_nil _ _ _) (h.insertAmong_pairwise ht) (fun c hc => ?_)
      fun u hu _ _ hin x hx hxu z hz => ?_
    · rcases mem_insertAmong hc with rfl | hc
      · refine (wholeOf_beside ht hpair hall fun x hx y hy => ?_).imp fun _ _ h => h.mono hle
        exact h.own x (hat.mem_of_old hx) y hy
      · obtain ⟨⟨d, hd, hcd⟩, -⟩ := mem_outsideOf.mp hc
        exact everywhere_of_mem_cutAt hcut ((hall d hd).imp fun _ _ h => h.mono hle) hcd
    · refine forall_insertAmong hcut free_ofHead ((free_inherited _).kept hcut)
        (ht.exempt (wholeOf_head ..)) (fun y hy => ?_) fun y hy => ?_
      · exact ((h.own z (Tree.mem_preorderAll_of_preorder hx hz) y hy).mono hle).symm
      · exact (hxu z hz y (Tree.mem_preorder_of_below (hin.mem_of_old hy))).symm
  · intro v hv w hw
    refine forall_insert hcut free_ofHead ((free_inherited _).kept hcut) (fun u hu => ht.exempt hu)
      (fun x hx => (ht.ahead x hx w hw).mono hle) (fun x hx => ?_) v hv
    refine (h.ahead x hx w ?_).mono hle
    rw [Tree.preorderAll_append]
    exact List.mem_append_right _ hw

/-! ## A run of insertions -/

/-- **A tidy run ends in order**, if the constructs begin one behind the other. -/
theorem Tidy.insertAll {nodes : List Tree} (h : Tidy low (nodes.flatMap Tree.children) root)
    (hbehind : ∀ t ∈ nodes, low < (ofTree t).start)
    (hstarts : nodes.Pairwise fun a b => (ofTree a).start < (ofTree b).start)
    (hnodes : ∀ t ∈ nodes, (ofTree t).start < (ofTree t).stop ∧ t.kind ≠ "Text"
      ∧ ∀ low, Everywhere (Beside low) t)
    (hahead : nodes.Pairwise fun a b => ∀ low, ∀ v ∈ preorderAll a.children,
      ∀ w ∈ preorderAll b.children, Free low v w) : InOrder (insertAll s root nodes) := by
  induction nodes generalizing low root with
  | nil => exact h.siblings.imp fun _ _ h => h.1.1
  | cons t rest ih =>
    obtain ⟨hstart, hstarts⟩ := List.pairwise_cons.mp hstarts
    obtain ⟨hfirst, hahead⟩ := List.pairwise_cons.mp hahead
    obtain ⟨hne, hkind, hown⟩ := hnodes t (List.mem_cons_self ..)
    rw [List.flatMap_cons] at h
    have hnext : Next low (rest.flatMap Tree.children) t := by
      refine ⟨hbehind t (List.mem_cons_self ..), hne, hkind, hown low, fun v hv w hw => ?_⟩
      obtain ⟨b, hb, hwb⟩ := Tree.mem_preorderAll_flatMap.mp hw
      exact hfirst b hb low v hv w hwb
    exact ih (h.insert hnext) hstart hstarts
      (fun u hu => hnodes u (List.mem_cons_of_mem _ hu)) hahead

/-! ## The trees that are merged -/

/-- Siblings that are in order and of which no text is pierced. -/
theorem everywhere_beside_of {trees : List Tree} (ht : Everywhere Precedes t)
    (hchildren : t.children.Pairwise Unmixed) (hsub : ∀ c ∈ t.children, c ∈ trees)
    (h : ∀ u ∈ preorderAll trees, u.children.Pairwise Unmixed) (low : Int) :
    Everywhere (Beside low) t := by
  intro u hu
  have hunmixed : u.children.Pairwise Unmixed := by
    rw [Tree.preorder_eq, List.mem_cons] at hu
    rcases hu with rfl | hu
    · exact hchildren
    · obtain ⟨c, hc, huc⟩ := Tree.mem_preorderAll.mp hu
      exact h u (Tree.mem_preorderAll.mpr ⟨c, hsub c hc, huc⟩)
  exact ((ht u hu).and hunmixed).imp fun hab => ⟨Precedes.abreast hab.1, Unmixed.apart hab.2⟩

/-- **A merge of recorded trees that do not pierce text ends in order.** -/
theorem insertAll_inOrder {markup : Tree} {nodes : List Tree} (hmarkup : Everywhere Precedes markup)
    (hnodes : ∀ t ∈ nodes, 0 ≤ (ofTree t).start ∧ (ofTree t).start < (ofTree t).stop
      ∧ t.kind ≠ "Text" ∧ Everywhere Precedes t)
    (hstarts : nodes.Pairwise fun a b => (ofTree a).start < (ofTree b).start)
    (h : Unpierced (recordedTrees markup nodes)) : InOrder (insertAll s markup nodes) := by
  obtain ⟨hpair, hbelow⟩ := h
  rw [recordedTrees, List.pairwise_append] at hpair
  obtain ⟨hmarkupPair, hcodePair, hcross⟩ := hpair
  rw [List.pairwise_flatMap] at hcodePair
  have hfree : ∀ {trees trees' : List Tree} (low : Int),
      (∀ a ∈ trees, ∀ b ∈ trees', Unmixed a b) → ∀ v ∈ preorderAll trees,
        ∀ w ∈ preorderAll trees', Free low v w := by
    intro trees trees' low hab
    refine forall_preorderAll_iff.mpr fun a ha v hv => ?_
    exact forall_preorderAll_iff.mpr fun b hb w hw => (hab a ha b hb).apart v hv w hw
  have htidy : Tidy (-1) (nodes.flatMap Tree.children) markup := by
    refine ⟨everywhere_beside_of hmarkup hmarkupPair (fun c hc => ?_) hbelow _,
      hfree _ hcross⟩
    exact List.mem_append_left _ hc
  refine htidy.insertAll (fun t ht => ?_) hstarts (fun t ht => ?_)
    (hcodePair.2.imp fun hab low => hfree low hab)
  · have := (hnodes t ht).1
    omega
  · obtain ⟨-, hne, hkind, hprecedes⟩ := hnodes t ht
    refine ⟨hne, hkind, everywhere_beside_of hprecedes (hcodePair.1 t ht) (fun c hc => ?_) hbelow⟩
    exact List.mem_append_right _ (List.mem_flatMap.mpr ⟨t, ht, hc⟩)

/-- **The order of a template's tree.** The tree of the markup is in order, and stays so
from insertion to insertion exactly as long as none overtakes. None does, and the built
tree is in order, if no recorded node starts inside a text leaf that is not below it. -/
theorem buildTemplate_inOrder {parse : Parse} {src : Bytes} {tolerance : Tolerance}
    {path : String} {built : Analysis.Built}
    (h : Analysis.buildTemplate parse tolerance path src = .ok built)
    (hrec : ∀ scanned, scan src = .ok scanned → RecordedNested parse src scanned) :
    ∃ scanned markup nodes, scan src = .ok scanned
      ∧ Merges parse src scanned markup nodes built.root
      ∧ ((∀ k, InOrder (insertAll (sourceOf src scanned) markup (nodes.take k)))
        ↔ ∀ k t, nodes[k]? = some t → ¬ Overtakes (sourceOf src scanned) t
          (insertAll (sourceOf src scanned) markup (nodes.take k)))
      ∧ (Unpierced (recordedTrees markup nodes) → InOrder built.root) := by
  obtain ⟨scanned, markup, nodes, hscan, hmerges⟩ := buildTemplate_merges _ h
  obtain ⟨hmarkup, hcode⟩ := hmerges.precedes hscan (hrec scanned hscan)
  refine ⟨scanned, markup, nodes, hscan, hmerges, insertAll_inOrder_iff
    (inOrder_of_precedes hmarkup) fun t ht => ?_, fun hclear => ?_⟩
  · obtain ⟨-, hne, -⟩ := hmerges.node hscan t ht
    exact ⟨inOrder_of_precedes (hcode t ht), Int.le_of_lt hne⟩
  · rw [hmerges.root_eq]
    refine insertAll_inOrder hmarkup (fun t ht => ?_) (hmerges.starts_increase hscan) hclear
    obtain ⟨hlow, hne, hkind⟩ := hmerges.node hscan t ht
    exact ⟨hlow, hne, hkind, hcode t ht⟩

/-- An expression behind a word, `a @b`. -/
def wordSource : Bytes := #[0x61, 0x20, 0x40, 0x62]

/-- The word is a text, and the expression is not parsed as code. -/
def wordParse : Parse :=
  recordedParse (namedNode "document" 0 4 [namedNode "text" 0 1 []])
    (namedNode "compilation_unit" 0 0 [])

/-- An expression behind a text leaves the tree in order. -/
theorem buildTemplate_inOrder_word : ∃ scanned built markup nodes,
    scan wordSource = .ok scanned ∧ wellFormed wordParse wordSource scanned = true
      ∧ Analysis.buildTemplate wordParse .half "word" wordSource = .ok built
      ∧ Merges wordParse wordSource scanned markup nodes built.root
      ∧ Unpierced (recordedTrees markup nodes) ∧ InOrder built.root := by
  have hformed : (scan wordSource).map (wellFormed wordParse wordSource) = .ok true := by
    decide +kernel
  have hrun : (Analysis.buildTemplate wordParse .half "word" wordSource).map
      (fun built => built.root.preorder.length) = .ok 3 := by decide +kernel
  have hunpierced : (scan wordSource).toOption.all (fun scanned =>
      (recordedOf wordParse wordSource scanned).toOption.all (Unpierced ·)) = true := by
    decide +kernel
  obtain ⟨scanned, hscan, hwell⟩ := Answers.exists_of_map hformed
  obtain ⟨built, hbuilt, -⟩ := Answers.exists_of_map hrun
  obtain ⟨scanned', markup, nodes, hscan', hmerges, -, hclear⟩ :=
    buildTemplate_inOrder hbuilt fun scanned' hscan' => by
      obtain rfl := Except.ok.inj (hscan.symm.trans hscan')
      exact recordedNested_of_wellFormed hwell
  obtain rfl := Except.ok.inj (hscan.symm.trans hscan')
  have hall := Answers.of_all hunpierced scanned hscan
  have hfree := of_decide_eq_true (Answers.of_all hall _ hmerges.recordedOf_eq)
  exact ⟨scanned, built, markup, nodes, hscan, hwell, hbuilt, hmerges, hfree, hclear hfree⟩

/-! ## A text that is overtaken -/

/-- A block with a line of markup, a statement, and a line of markup with an expression
in it: `@{@:a⏎F;@:@i c⏎}`. -/
def overtakenSource : Bytes :=
  #[0x40, 0x7B, 0x40, 0x3A, 0x61, 0x0A, 0x46, 0x3B, 0x40, 0x3A, 0x40, 0x69, 0x20, 0x63, 0x0A,
    0x7D]

/-- The markup of both lines is one text, because the statement is blank in its view. -/
def overtakenParse : Parse :=
  recordedParse (namedNode "document" 4 16 [namedNode "text" 4 14 []])
    (namedNode "compilation_unit" 0 13 [namedNode "global_statement" 4 6 []])

/-- **Well-formed trees are not enough for the order.** The block takes in the text,
before the statement inside it; the expression cuts the text, and what is left behind
the expression stays before the statement. -/
theorem buildTemplate_overtaken : ∃ scanned built, scan overtakenSource = .ok scanned
    ∧ wellFormed overtakenParse overtakenSource scanned = true
    ∧ Analysis.buildTemplate overtakenParse .half "overtaken" overtakenSource = .ok built
    ∧ ¬ InOrder built.root := by
  have hformed : (scan overtakenSource).map (wellFormed overtakenParse overtakenSource)
      = .ok true := by decide +kernel
  have hrun : (Analysis.buildTemplate overtakenParse .half "overtaken" overtakenSource).map
      (fun built => decide (InOrder built.root)) = .ok false := by decide +kernel
  obtain ⟨scanned, hscan, hwell⟩ := Answers.exists_of_map hformed
  obtain ⟨built, hbuilt, horder⟩ := Answers.exists_of_map hrun
  exact ⟨scanned, built, hscan, hwell, hbuilt, of_decide_eq_false horder⟩

end SyntaxForest.Template
