import SyntaxForest.Proofs.Template.Path

/-!
# What stands below what

Nodes have no identity but their head, so that a node of one construct stands below
that of another is said of heads (`Below`). An insertion changes what is below the
nodes on its way, cuts text and moves nodes, but what was below a node stays below it
(`keeps_insert`). Conversely, nothing comes to stand below a node unless it is
inserted there or moved there with the node that takes it in; and a node that starts
before an inserted one is not moved (`keeps_insert_back`).

So a node is below another in the end if and only if it was inserted through it
(`below_insertAll_iff`).
-/

namespace SyntaxForest.Template

open SyntaxForest.Template.Span (ofTree)
open SyntaxForest.Tree (preorderAll)

variable {s : Source} {span : Span} {t t' u u' w root : Tree} {cs cs' ds old new : List Tree}
variable {h k : String × Properties}

/-- A head among the nodes of several trees. -/
def Has (k : String × Properties) (cs : List Tree) : Prop := ∃ u ∈ preorderAll cs, u.head = k

/-- **A node with the head `k` below one with the head `h`.** -/
def Below (h k : String × Properties) (t : Tree) : Prop :=
  ∃ u ∈ t.preorder, u.head = h ∧ Has k u.children

instance : Decidable (Has k cs) :=
  inferInstanceAs (Decidable (∃ u ∈ preorderAll cs, u.head = k))

instance : Decidable (Below h k t) :=
  inferInstanceAs (Decidable (∃ u ∈ t.preorder, u.head = h ∧ Has k u.children))

theorem preorderAll_singleton (t : Tree) : preorderAll [t] = t.preorder := by
  rw [Tree.preorderAll_cons, Tree.preorderAll_nil, List.append_nil]

/-- A node comes with its own head and with those below it. -/
theorem has_singleton : Has k [t] ↔ t.head = k ∨ Has k t.children := by
  unfold Has
  rw [preorderAll_singleton, Tree.preorder_eq]
  simp only [List.mem_cons, exists_eq_or_imp]

theorem Has.of_mem (hu : u ∈ preorderAll cs) (hk : Has k [u]) : Has k cs := by
  obtain ⟨v, hv, rfl⟩ := hk
  rw [preorderAll_singleton] at hv
  exact ⟨v, Tree.mem_preorderAll_of_preorder hu hv, rfl⟩

/-- A text leaf has nothing but its own head. -/
theorem not_has_of_isTextLeaf (hleaf : isTextLeaf t = true) (hk : k.1 ≠ "Text") :
    ¬ Has k [t] := by
  rintro ⟨u, hu, rfl⟩
  rw [preorderAll_singleton, preorder_of_isTextLeaf hleaf, List.mem_singleton] at hu
  subst hu
  rw [isTextLeaf, Bool.and_eq_true, beq_iff_eq] at hleaf
  exact hk hleaf.1

/-! ## Keeping what is below -/

/-- **Trees keep what others have of a head**: each node that has it is still there,
and if the head was below the node, it is below it still. -/
def Keeps (k : String × Properties) (cs cs' : List Tree) : Prop :=
  ∀ u ∈ preorderAll cs, Has k [u] →
    ∃ u' ∈ preorderAll cs', u'.head = u.head ∧ (Has k u.children → Has k u'.children)

namespace Keeps

theorem of_forall (hcs : ∀ c ∈ cs, Keeps k [c] cs') : Keeps k cs cs' := by
  intro u hu
  rw [Tree.preorderAll_eq_flatMap, List.mem_flatMap] at hu
  obtain ⟨c, hc, hu⟩ := hu
  exact hcs c hc u (preorderAll_singleton c ▸ hu)

theorem of_mem (hu : u ∈ cs) : Keeps k [u] cs := by
  intro v hv _
  rw [preorderAll_singleton] at hv
  exact ⟨v, Tree.mem_preorderAll_of_preorder (Tree.mem_preorderAll_of_mem hu) hv, rfl, id⟩

theorem of_subset (hsub : ∀ c ∈ cs, c ∈ cs') : Keeps k cs cs' :=
  of_forall fun c hc => of_mem (hsub c hc)

/-- Nothing has to be kept of what does not have the head. -/
theorem of_not_has (hnot : ¬ Has k cs) : Keeps k cs cs' :=
  fun _ hu hk => absurd (hk.of_mem hu) hnot

theorem trans (hcs : Keeps k cs cs') (hds : Keeps k cs' ds) : Keeps k cs ds := by
  intro u hu hk
  obtain ⟨u', hu', hhead, hbelow⟩ := hcs u hu hk
  obtain ⟨v, hv, hhead', hbelow'⟩ := hds u' hu' <| by
    rw [has_singleton] at hk ⊢
    exact hk.imp hhead.trans hbelow
  exact ⟨v, hv, hhead'.trans hhead, hbelow' ∘ hbelow⟩

/-- What is kept below a node is kept. -/
theorem under (hcs : Keeps k cs u.children) : Keeps k cs [u] := by
  intro v hv hk
  obtain ⟨v', hv', hrest⟩ := hcs v hv hk
  exact ⟨v', preorderAll_singleton u ▸ Tree.mem_preorder_of_below hv', hrest⟩

theorem has (hcs : Keeps k cs cs') (hk : Has k cs) : Has k cs' := by
  obtain ⟨u, hu, rfl⟩ := hk
  obtain ⟨u', hu', hhead, -⟩ := hcs u hu (has_singleton.mpr (.inl rfl))
  exact ⟨u', hu', hhead⟩

/-- A node keeps what it has if its children do. -/
theorem node (hhead : u'.head = u.head) (hcs : Keeps k u.children u'.children) :
    Keeps k [u] [u'] := by
  intro v hv hk
  rw [preorderAll_singleton, Tree.preorder_eq, List.mem_cons] at hv
  rcases hv with rfl | hv
  · exact ⟨u', Tree.mem_preorderAll_of_mem (List.mem_singleton.mpr rfl), hhead, hcs.has⟩
  · exact hcs.under v hv hk

/-- One sibling is replaced by another that keeps what it has. -/
theorem replace (hu : Keeps k [u] [u']) (before after : List Tree) :
    Keeps k (before ++ u :: after) (before ++ u' :: after) := by
  refine of_forall fun c hc => ?_
  rw [List.mem_append, List.mem_cons] at hc
  rcases hc with hc | rfl | hc
  · exact of_mem (by simp [hc])
  · exact hu.trans (of_mem (by simp))
  · exact of_mem (by simp [hc])

theorem below (hcs : Keeps k [t] [t']) (hb : Below h k t) : Below h k t' := by
  obtain ⟨u, hu, rfl, hk⟩ := hb
  rw [← preorderAll_singleton] at hu
  obtain ⟨u', hu', hhead, hbelow⟩ := hcs u hu (has_singleton.mpr (.inr hk))
  rw [preorderAll_singleton] at hu'
  exact ⟨u', hu', hhead, hbelow hk⟩

end Keeps

namespace AtHome

/-- **What the change at the end keeps, the whole tree keeps.** -/
theorem keeps (hin : AtHome span old new t t') (hold : Keeps k old new) : Keeps k [t] [t'] := by
  induction hin with
  | here => exact .node rfl hold
  | under _ _ _ ih => exact .node rfl (.replace ih _ _)

/-- The change back keeps it as well. -/
theorem keeps_back (hin : AtHome span old new t t') (hnew : Keeps k new old) :
    Keeps k [t'] [t] := by
  induction hin with
  | @here kind props => exact .node (u := .node kind props new) rfl hnew
  | @under kind props before after u u' _ _ _ ih =>
    exact .node (u := .node kind props (before ++ u' :: after)) rfl (.replace ih _ _)

/-- What is put at the end of a way is in the tree. -/
theorem has_new (hin : AtHome span old new t t') (hk : Has k new) : Has k t'.children := by
  obtain ⟨v, hv, rfl⟩ := hk
  exact ⟨v, hin.mem_of_new hv, rfl⟩

/-- What is put at the end of the way is below all that the span comes through. -/
theorem below_of_mem_pathTo (hin : AtHome span old new t t') (hk : Has k new)
    (hh : h ∈ pathTo span t) : Below h k t' := by
  induction hin with
  | here hnone =>
    rw [pathTo, pathBelow_of_none hnone, List.mem_singleton] at hh
    exact ⟨_, Tree.mem_preorder_self _, hh.symm, hk⟩
  | @under kind props before after u u' hnone hu hin ih =>
    have hmem : u' ∈ before ++ u' :: after := by simp
    rw [pathTo, pathBelow_append hnone, pathBelow_cons_of_container hu, List.mem_cons] at hh
    rcases hh with hh | hh
    · refine ⟨_, Tree.mem_preorder_self _, hh.symm, .of_mem (Tree.mem_preorderAll_of_mem hmem) ?_⟩
      exact has_singleton.mpr (.inr (hin.has_new hk))
    · exact (Keeps.under (Keeps.of_mem hmem)).below (ih hh)

/-- **What is new below a node** is below it only if the span comes through the node. -/
theorem mem_pathTo_of_below (hin : AtHome span old new t t') (ht : ¬ Has k t.children)
    (hnew : ∀ c ∈ new, ¬ Has k c.children) (hb : Below h k t') : h ∈ pathTo span t := by
  induction hin with
  | @here kind props hnone =>
    obtain ⟨u, hu, rfl, hk⟩ := hb
    rw [Tree.preorder_eq, List.mem_cons] at hu
    rcases hu with rfl | hu
    · exact List.mem_cons_self ..
    · obtain ⟨c, hc, huc⟩ := Tree.mem_preorderAll.mp hu
      obtain ⟨v, hv, hvk⟩ := hk
      have hvc : v ∈ preorderAll c.children := by
        rcases huc with rfl | huc
        · exact hv
        · exact Tree.mem_preorderAll_trans huc hv
      exact absurd ⟨v, hvc, hvk⟩ (hnew c hc)
  | @under kind props before after u u' hnone hu hin ih =>
    have hnot : ∀ c ∈ before ++ u :: after, ¬ Has k [c] := fun c hc hk =>
      ht (hk.of_mem (Tree.mem_preorderAll_of_mem hc))
    rw [pathTo, pathBelow_append hnone, pathBelow_cons_of_container hu]
    obtain ⟨v, hv, rfl, hk⟩ := hb
    rw [Tree.preorder_eq, List.mem_cons] at hv
    rcases hv with rfl | hv
    · exact List.mem_cons_self ..
    · refine List.mem_cons_of_mem _ ?_
      change v ∈ preorderAll (before ++ u' :: after) at hv
      rw [Tree.preorderAll_eq_flatMap, List.mem_flatMap] at hv
      obtain ⟨c, hc, hvc⟩ := hv
      rw [List.mem_append, List.mem_cons] at hc
      have hbelow : Below v.head k c := ⟨v, hvc, rfl, hk⟩
      have hkc : Has k [c] := by
        obtain ⟨x, hx, hxk⟩ := hk
        exact ⟨x, preorderAll_singleton c ▸ Tree.mem_preorder_of_below
          (Tree.mem_below_trans hvc hx), hxk⟩
      -- only the child that the span comes through has the head now
      rcases hc with hc | rfl | hc
      · exact absurd hkc (hnot c (by simp [hc]))
      · exact ih (fun hku => hnot u (by simp) (has_singleton.mpr (.inr hku))) hbelow
      · exact absurd hkc (hnot c (by simp [hc]))

end AtHome

/-! ## Insertions keep what is below -/

theorem keeps_place (u w : Tree) : Keeps k [w, u] [place u w] := by
  have hat := place_atHome u w
  refine .of_forall fun c hc => ?_
  rw [List.mem_cons, List.mem_singleton] at hc
  rcases hc with rfl | rfl
  · exact hat.keeps (.of_subset fun d hd => mem_insertByStart.mpr (.inr hd))
  · refine .under fun v hv _ => ⟨v, hat.mem_of_new ?_, rfl, id⟩
    rw [preorderAll_singleton] at hv
    exact Tree.mem_preorderAll_of_preorder
      (Tree.mem_preorderAll_of_mem (mem_insertByStart.mpr (.inl rfl))) hv

/-- Nodes that are placed one after another are all kept. -/
theorem keeps_foldl_place (us : List Tree) (w : Tree) :
    Keeps k (w :: us) [us.foldl (fun t u => place u t) w] := by
  induction us generalizing w with
  | nil => exact .of_subset fun _ hc => hc
  | cons u us ih =>
    refine .of_forall fun c hc => ?_
    rw [List.mem_cons, List.mem_cons] at hc
    have hfirst : Keeps k [place u w] [us.foldl (fun t u => place u t) (place u w)] :=
      Keeps.trans (.of_mem (List.mem_cons_self ..)) (ih (place u w))
    rcases hc with rfl | rfl | hc
    · exact (Keeps.of_mem (by simp)).trans ((keeps_place u c).trans hfirst)
    · exact (Keeps.of_mem (by simp)).trans ((keeps_place c w).trans hfirst)
    · exact (Keeps.of_mem (List.mem_cons_of_mem _ hc)).trans (ih (place u w))

/-- **Siblings are kept**, outside the inserted node or below it. -/
theorem keeps_insertAmong (hk : k.1 ≠ "Text") : Keeps k cs (insertAmong s t cs) := by
  refine .of_forall fun c hc => ?_
  by_cases hleaf : isTextLeaf c = true
  · exact .of_not_has (not_has_of_isTextLeaf hleaf hk)
  have hself : c ∈ cutAt s (ofTree t) c := by
    unfold cutAt
    dsimp only
    rw [if_neg]
    · exact List.mem_singleton.mpr rfl
    · rw [Bool.and_eq_true]
      exact fun hover => hleaf hover.1
  cases hin : (ofTree t).contains (ofTree c) with
  | false =>
    have hout : c ∈ outsideOf s t cs := mem_outsideOf.mpr ⟨⟨c, hc, hself⟩, hin⟩
    exact .of_mem ((outsideOf_sublist s t cs).subset hout)
  | true =>
    have hmem : c ∈ insideOf s t cs := mem_insideOf.mpr ⟨⟨c, hc, hself⟩, hin⟩
    refine (Keeps.of_mem (List.mem_cons_of_mem t hmem)).trans ?_
    exact (keeps_foldl_place _ t).trans (.of_mem (wholeOf_mem_insertAmong s t cs))

/-- **An insertion keeps what is below a node.** -/
theorem keeps_insert (hk : k.1 ≠ "Text") : Keeps k [root] [insert s t root] :=
  (insert_atHome s t root).keeps (keeps_insertAmong hk)

/-- **An inserted node is below all that its span came through.** -/
theorem below_insert (hh : h ∈ pathTo (ofTree t) root) : Below h t.head (insert s t root) := by
  refine (insert_atHome s t root).below_of_mem_pathTo ?_ hh
  exact .of_mem (Tree.mem_preorderAll_of_mem (wholeOf_mem_insertAmong s t _))
    (has_singleton.mpr (.inl (wholeOf_head ..)))

/-! ## Insertions bring nothing else below a node -/

theorem not_has_iff : ¬ Has k cs ↔ ∀ u ∈ preorderAll cs, u.head ≠ k := by
  simp only [Has, not_exists, not_and, ne_eq]

theorem ofHead_ne : OfHead (·.head ≠ k) := fun _ _ hhead _ _ hu => hhead.trans_ne hu

/-- A cut gives no head to what did not have it. -/
theorem not_has_cutAt (hcut : span.start ≤ span.stop) (hk : k.1 ≠ "Text") (ht : ¬ Has k [t])
    (hu : u ∈ cutAt s span t) : ¬ Has k [u] := by
  rcases mem_cutAt hcut hu with ⟨rfl, -⟩ | ⟨-, hpiece⟩
  · exact ht
  · exact not_has_of_isTextLeaf hpiece.leaf hk

/-- A node has what it had and what it takes over, and nothing else. -/
theorem not_has_wholeOf (ht : ¬ Has k t.children) (hin : ∀ u ∈ insideOf s t cs, ¬ Has k [u]) :
    ¬ Has k (wholeOf s t cs).children := by
  rw [not_has_iff] at ht ⊢
  refine forall_wholeOf ofHead_ne ht fun u hu => ?_
  rw [← preorderAll_singleton]
  exact not_has_iff.mp (hin u hu)

/-- **What has a head starts by `low`.** -/
def StartsBy (low : Int) (k : String × Properties) (cs : List Tree) : Prop :=
  ∀ u ∈ preorderAll cs, Has k [u] → (ofTree u).start ≤ low

section

variable {low : Int}

/-- Where the head is that only the inserted node has. -/
theorem startsBy_insert (hne : (ofTree t).start < (ofTree t).stop) (hkind : t.kind ≠ "Text")
    (hroot : ¬ Has t.head root.children)
    (hwhole : ¬ Has t.head (wholeOf s t (siblingsAt (ofTree t) root)).children) :
    StartsBy (ofTree t).start t.head (insert s t root).children := by
  intro v hv hk
  rcases mem_insert (Int.le_of_lt hne) hv with hv | hv | hleaf | ⟨u, -, hu, hin⟩
  · rw [Tree.preorder_eq, List.mem_cons] at hv
    rcases hv with rfl | hv
    · exact Int.le_of_eq (congrArg Span.start (ofTree_of_head (wholeOf_head ..)))
    · exact absurd (hk.of_mem hv) hwhole
  · exact absurd (hk.of_mem hv) hroot
  · exact absurd hk (not_has_of_isTextLeaf hleaf hkind)
  · rw [hin.ofTree_eq]
    exact (isContainer_iff.mp hu).2.1

/-- **After the insertion** of a node that is the first of its head, that head is where
the node was put. -/
theorem insert_first (hne : (ofTree t).start < (ofTree t).stop) (hkind : t.kind ≠ "Text")
    (hown : ¬ Has t.head t.children) (hroot : ¬ Has t.head root.children) :
    (∀ h, Below h t.head (insert s t root) ↔ h ∈ pathTo (ofTree t) root)
      ∧ StartsBy (ofTree t).start t.head (insert s t root).children := by
  have hat := insert_atHome s t root
  have hcut := Int.le_of_lt hne
  have hold : ∀ c ∈ siblingsAt (ofTree t) root, ¬ Has t.head [c] := fun c hc hk =>
    hroot (hk.of_mem (hat.mem_of_old (Tree.mem_preorderAll_of_mem hc)))
  have hwhole : ¬ Has t.head (wholeOf s t (siblingsAt (ofTree t) root)).children := by
    refine not_has_wholeOf hown fun u hu => ?_
    obtain ⟨⟨c, hc, huc⟩, -⟩ := mem_insideOf.mp hu
    exact not_has_cutAt hcut hkind (hold c hc) huc
  refine ⟨fun h => ⟨hat.mem_pathTo_of_below hroot fun c hc hk => ?_, below_insert⟩,
    startsBy_insert hne hkind hroot hwhole⟩
  rcases mem_insertAmong hc with rfl | hc
  · exact hwhole hk
  · rcases mem_or_isTextLeaf_of_outsideOf hcut hc with hc | hleaf
    · exact hold c hc (has_singleton.mpr (.inr hk))
    · exact not_has_of_isTextLeaf hleaf hkind (has_singleton.mpr (.inr hk))

/-- What starts behind `low` takes in nothing that has the head. -/
theorem not_has_wholeOf_of_startsBy (hcut : (ofTree t).start ≤ (ofTree t).stop)
    (hk : k.1 ≠ "Text") (ht : ¬ Has k [t]) (hlow : low < (ofTree t).start)
    (hcs : StartsBy low k cs) : ¬ Has k [wholeOf s t cs] := by
  obtain ⟨hhead, hown⟩ := not_or.mp (mt has_singleton.mpr ht)
  refine mt has_singleton.mp (not_or.mpr ⟨(wholeOf_head ..).symm ▸ hhead, ?_⟩)
  refine not_has_wholeOf hown fun u hu hku => ?_
  obtain ⟨⟨c, hc, huc⟩, hcontains⟩ := mem_insideOf.mp hu
  rcases mem_cutAt hcut huc with ⟨rfl, -⟩ | ⟨-, hpiece⟩
  · have hstart := hcs u (Tree.mem_preorderAll_of_mem hc) hku
    have := (Span.contains_iff.mp hcontains).1
    omega
  · exact not_has_of_isTextLeaf hpiece.leaf hk hku

/-- **A later insertion** moves nothing that starts before it. -/
theorem keeps_insert_back (hcut : (ofTree t).start ≤ (ofTree t).stop) (hk : k.1 ≠ "Text")
    (ht : ¬ Has k [t]) (hlow : low < (ofTree t).start) (hroot : StartsBy low k root.children) :
    Keeps k [insert s t root] [root] ∧ StartsBy low k (insert s t root).children := by
  have hat := insert_atHome s t root
  have hwhole : ¬ Has k [wholeOf s t (siblingsAt (ofTree t) root)] :=
    not_has_wholeOf_of_startsBy hcut hk ht hlow fun u hu => hroot u (hat.mem_of_old hu)
  have hback : Keeps k (insertAmong s t (siblingsAt (ofTree t) root))
      (siblingsAt (ofTree t) root) := by
    refine .of_forall fun c hc => ?_
    rcases mem_insertAmong hc with rfl | hc
    · exact .of_not_has hwhole
    · rcases mem_or_isTextLeaf_of_outsideOf hcut hc with hc | hleaf
      · exact .of_mem hc
      · exact .of_not_has (not_has_of_isTextLeaf hleaf hk)
  refine ⟨hat.keeps_back hback, fun v hv hkv => ?_⟩
  rcases mem_insert hcut hv with hv | hv | hleaf | ⟨u, hu, -, hin⟩
  · exact absurd (hkv.of_mem (preorderAll_singleton _ ▸ hv)) hwhole
  · exact hroot v hv hkv
  · exact absurd hkv (not_has_of_isTextLeaf hleaf hk)
  · rw [hin.ofTree_eq]
    exact hroot u hu ((hin.keeps_back hback).has hkv)

end

end SyntaxForest.Template
