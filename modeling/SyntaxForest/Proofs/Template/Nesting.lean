import SyntaxForest.Proofs.Template.Lineage
import SyntaxForest.Proofs.Template.Passage

/-!
# Whether nested constructs stay nested

A construct nested in another has its node below the other's if it is inserted through
it, and, as heads tell nodes apart, only then. It is inserted through the other unless
a recorded node straddles the other's start: it begins before the outer construct, ends
inside it, and holds the inner one. Constructs themselves never straddle each other,
because the scan nests them (`Scanned.contains_outer`).

Markup can straddle a construct: an element that is closed inside a block was opened
before it. `buildTemplate_straddled` is such a template.
-/

namespace SyntaxForest.Template

open SyntaxForest.Template.Span (ofTree)
open SyntaxForest.Tree (preorderAll Everywhere)
open Segment

variable {parse : Parse} {src : Bytes} {scanned : List Segment}
variable {s : Source} {inner : Span} {low : Int} {t root markup : Tree}
variable {nodes before after : List Tree} {h k : String × Properties}

/-! ## The scan -/

/-- Among siblings, what begins before one ends before it. -/
theorem Scanned.stop_le_of_start_lt {cursor stop : Nat} {found : List Segment}
    (hfound : Scanned cursor stop found) {c d : Segment} (hc : c ∈ found)
    (hd : d ∈ Segment.preorderAll found) (hlt : d.start < c.start) : d.stop ≤ c.start := by
  induction found generalizing cursor with
  | nil => cases hc
  | cons u rest ih =>
    have hu := List.mem_cons_self (a := u) (l := rest)
    have hne := (hfound.2 u (mem_preorderAll_of_mem hu)).nonempty
    rw [Segment.preorderAll_cons, List.mem_append] at hd
    rcases List.mem_cons.mp hc with rfl | hc <;> rcases hd with hd | hd
    · have := (hfound.preorder_bounds hu hd).1
      omega
    · have := (hfound.tail.bounds hd).1
      omega
    · have := (hfound.preorder_bounds hu hd).2
      have := (hfound.tail.bounds (mem_preorderAll_of_mem hc)).1
      omega
    · exact ih hfound.tail hc hd

/-- **Constructs are nested**: one that begins before a construct and reaches to its end
contains the one that this construct is a child of. -/
theorem Scanned.contains_outer {cursor stop : Nat} {found : List Segment}
    (hfound : Scanned cursor stop found) {o c d : Segment} (ho : o ∈ Segment.preorderAll found)
    (hc : c ∈ o.children) (hd : d ∈ Segment.preorderAll found) (hlt : d.start < c.start)
    (hle : c.stop ≤ d.stop) : d.start ≤ o.start ∧ o.stop ≤ d.stop := by
  induction hn : sizeAll found using Nat.strongRecOn generalizing found cursor stop with
  | ind n ih =>
    obtain ⟨hlow, hne, hhigh⟩ := hfound.child_bounds ho hc
    cases found with
    | nil => cases ho
    | cons u rest =>
      have hu := List.mem_cons_self (a := u) (l := rest)
      have hchildren := hfound.children hu
      rw [sizeAll, size_eq u] at hn
      rw [Segment.preorderAll_cons, List.mem_append] at ho hd
      rcases ho with ho | ho <;> rcases hd with hd | hd
      · have hinside := hfound.preorder_bounds hu ho
        rw [Segment.preorder_eq, List.mem_cons] at ho hd
        rcases hd with rfl | hd
        · exact hinside
        rcases ho with rfl | ho
        · -- below `o` itself, nothing but the child holds any of it
          have := hchildren.stop_le_of_start_lt hc hd hlt
          omega
        · exact ih _ (by omega) hchildren ho hd rfl
      · have := (hfound.preorder_bounds hu ho).2
        have := (hfound.tail.bounds hd).1
        omega
      · have := (hfound.preorder_bounds hu hd).2
        have := (hfound.tail.bounds ho).1
        omega
      · exact ih _ (by omega) hfound.tail ho hd rfl

/-! ## A run of insertions -/

theorem insertAll_append : insertAll s root (before ++ t :: after)
    = insertAll s (insert s t (insertAll s root before)) after := by
  rw [insertAll, List.foldl_append]
  rfl

/-- The path of a span that starts before all that is inserted stays as it is. -/
theorem pathTo_insertAll (hnodes : ∀ t ∈ nodes, (ofTree t).start ≤ (ofTree t).stop)
    (hlow : ∀ t ∈ nodes, inner.start < (ofTree t).start) :
    pathTo inner (insertAll s root nodes) = pathTo inner root := by
  induction nodes generalizing root with
  | nil => rfl
  | cons t rest ih =>
    have hfirst : pathTo inner (insert s t root) = pathTo inner root :=
      pathTo_insert (hnodes t (List.mem_cons_self ..)) (hlow t (List.mem_cons_self ..))
    refine Eq.trans (ih (fun u hu => hnodes u (List.mem_cons_of_mem _ hu)) ?_) hfirst
    exact fun u hu => hlow u (List.mem_cons_of_mem _ hu)

/-- **An inserted node stays on the path of its span.** -/
theorem head_mem_pathTo_insertAll
    (hstarts : nodes.Pairwise fun a b => (ofTree a).start < (ofTree b).start)
    (hnodes : ∀ t ∈ nodes, (ofTree t).start < (ofTree t).stop ∧ t.kind ≠ "Text") (ht : t ∈ nodes) :
    t.head ∈ pathTo (ofTree t) (insertAll s root nodes) := by
  obtain ⟨before, after, rfl⟩ := List.append_of_mem ht
  rw [List.pairwise_append, List.pairwise_cons] at hstarts
  obtain ⟨hne, hkind⟩ := hnodes t ht
  rw [insertAll_append, pathTo_insertAll (fun u hu => Int.le_of_lt (hnodes u (by simp [hu])).1)
    hstarts.2.1.1]
  exact head_mem_pathTo_insert hne hkind

/-- What is below a node stays below it. -/
theorem keeps_insertAll (hk : k.1 ≠ "Text") : Keeps k [root] [insertAll s root nodes] := by
  induction nodes generalizing root with
  | nil => exact .of_subset fun _ hc => hc
  | cons t rest ih => exact (keeps_insert hk).trans ih

/-- **Insertions make no node** that was neither in the root nor in one of the nodes. -/
theorem not_has_insertAll (hk : k.1 ≠ "Text")
    (hnodes : ∀ t ∈ nodes, (ofTree t).start ≤ (ofTree t).stop ∧ ¬ Has k [t])
    (hroot : ¬ Has k root.children) : ¬ Has k (insertAll s root nodes).children := by
  rw [not_has_iff] at hroot ⊢
  refine forall_insertAll ofHead_ne (fun t ht => ?_) hroot
  obtain ⟨hcut, hnot⟩ := hnodes t ht
  obtain ⟨hhead, hown⟩ := not_or.mp (mt has_singleton.mpr hnot)
  refine ⟨hcut, Inherited.kept hcut fun x q _ hq _ hqk => ?_, fun w hw => hw ▸ hhead,
    not_has_iff.mp hown⟩
  exact not_has_of_isTextLeaf hq.leaf hk (has_singleton.mpr (.inl hqk))

/-- Nothing comes to stand below a node by later insertions. -/
theorem keeps_insertAll_back (hk : k.1 ≠ "Text")
    (hnodes : ∀ t ∈ nodes, low < (ofTree t).start ∧ (ofTree t).start ≤ (ofTree t).stop
      ∧ ¬ Has k [t]) (hroot : StartsBy low k root.children) :
    Keeps k [insertAll s root nodes] [root] := by
  induction nodes generalizing root with
  | nil => exact .of_subset fun _ hc => hc
  | cons t rest ih =>
    obtain ⟨hlow, hcut, ht⟩ := hnodes t (List.mem_cons_self ..)
    obtain ⟨hback, hnext⟩ := keeps_insert_back (s := s) hcut hk ht hlow hroot
    exact (ih (fun u hu => hnodes u (List.mem_cons_of_mem _ hu)) hnext).trans hback

/-- **Below what a node ends**: below all that it was inserted through, and, if its head
is its own, below nothing else. -/
theorem below_insertAll_iff
    (hstarts : (before ++ t :: after).Pairwise fun a b => (ofTree a).start < (ofTree b).start)
    (hnodes : ∀ u ∈ before ++ t :: after, (ofTree u).start < (ofTree u).stop ∧ u.kind ≠ "Text")
    (hown : ¬ Has t.head (recordedTrees root (before ++ t :: after))) :
    Below h t.head (insertAll s root (before ++ t :: after))
      ↔ h ∈ pathTo (ofTree t) (insertAll s root before) := by
  rw [not_has_iff] at hown
  have hroot : ¬ Has t.head root.children := not_has_iff.mpr fun u hu =>
    hown u (mem_recordedTrees.mpr (.inl hu))
  have hcode : ∀ u ∈ before ++ t :: after, ¬ Has t.head u.children := fun u hu =>
    not_has_iff.mpr fun v hv => hown v (mem_recordedTrees.mpr (.inr ⟨u, hu, hv⟩))
  have hother : ∀ u ∈ before ++ t :: after, (ofTree u).start ≠ (ofTree t).start →
      ¬ Has t.head [u] := by
    intro u hu hne hk
    rcases has_singleton.mp hk with hhead | hbelow
    · exact hne (congrArg Span.start (ofTree_of_head hhead))
    · exact hcode u hu hbelow
  obtain ⟨hne, hkind⟩ := hnodes t (by simp)
  rw [List.pairwise_append, List.pairwise_cons] at hstarts
  obtain ⟨-, ⟨hafter, -⟩, hbefore⟩ := hstarts
  have hfirst : ¬ Has t.head (insertAll s root before).children := by
    refine not_has_insertAll hkind (fun u hu => ?_) hroot
    have hlt := hbefore u hu t (List.mem_cons_self ..)
    exact ⟨Int.le_of_lt (hnodes u (by simp [hu])).1, hother u (by simp [hu]) (Int.ne_of_lt hlt)⟩
  obtain ⟨hinsert, hby⟩ := insert_first (s := s) hne hkind (hcode t (by simp)) hfirst
  rw [← hinsert h, insertAll_append]
  refine ⟨(keeps_insertAll_back hkind (fun u hu => ?_) hby).below, (keeps_insertAll hkind).below⟩
  have hlt := hafter u hu
  exact ⟨hlt, Int.le_of_lt (hnodes u (by simp [hu])).1,
    hother u (by simp [hu]) (Int.ne_of_gt hlt)⟩

/-! ## Nested constructs -/

/-- **The node `inner` is inserted through `outer`**, by the time that its turn comes. -/
def PassesThrough (s : Source) (markup : Tree) (nodes : List Tree) (outer inner : Tree) : Prop :=
  ∃ before after, nodes = before ++ inner :: after
    ∧ outer.head ∈ pathTo (ofTree inner) (insertAll s markup before)

/-- **A node straddles the start of another** and holds a third: it begins before
`outer`, and ends inside it and behind `inner`. -/
def Straddles (r outer inner : Tree) : Prop :=
  (ofTree r).start < (ofTree outer).start ∧ (ofTree inner).stop ≤ (ofTree r).stop
    ∧ (ofTree r).stop < (ofTree outer).stop

/-- **A node inserted through another** is below it in the end. -/
theorem PassesThrough.below {outer inner : Tree} (hp : PassesThrough s markup nodes outer inner)
    (hkind : inner.kind ≠ "Text") : Below outer.head inner.head (insertAll s markup nodes) := by
  obtain ⟨before, after, rfl, hmem⟩ := hp
  rw [insertAll_append]
  exact (keeps_insertAll (k := inner.head) hkind).below (below_insert hmem)

namespace Merges

variable {o c : Segment} {no nc : Tree}

theorem nodeOf_of_mem_zip (hm : Merges parse src scanned markup nodes root)
    (ho : (o, no) ∈ (allSegments scanned).zip nodes) : NodeOf o no :=
  (List.forall₂_iff_zip.mp hm.nodes_of).2 ho

/-- The spans of the nodes of nested constructs. -/
theorem span_of_child (hm : Merges parse src scanned markup nodes root)
    (hscan : scan src = .ok scanned) (ho : (o, no) ∈ (allSegments scanned).zip nodes)
    (hc : (c, nc) ∈ (allSegments scanned).zip nodes) (hchild : c ∈ o.children) :
    (ofTree no).start < (ofTree nc).start ∧ (ofTree nc).start < (ofTree nc).stop
      ∧ (ofTree nc).stop ≤ (ofTree no).stop := by
  have hbounds := (scan_scanned hscan).child_bounds
    (allSegments_eq scanned ▸ (List.of_mem_zip ho).1) hchild
  rw [(hm.nodeOf_of_mem_zip ho).span_eq, (hm.nodeOf_of_mem_zip hc).span_eq]
  dsimp only
  omega

/-- The node of an earlier construct that holds the inner one holds the outer one. -/
theorem contains_outer (hm : Merges parse src scanned markup nodes root)
    (hscan : scan src = .ok scanned) (ho : (o, no) ∈ (allSegments scanned).zip nodes)
    (hc : (c, nc) ∈ (allSegments scanned).zip nodes) (hchild : c ∈ o.children) (ht : t ∈ nodes)
    (hlt : (ofTree t).start < (ofTree nc).start) (hle : (ofTree nc).stop ≤ (ofTree t).stop) :
    (ofTree t).start ≤ (ofTree no).start ∧ (ofTree no).stop ≤ (ofTree t).stop := by
  obtain ⟨d, hd, hdt⟩ := hm.exists_segment ht
  have houter := (List.of_mem_zip ho).1
  rw [(hm.nodeOf_of_mem_zip hc).span_eq, hdt.span_eq] at hlt hle
  rw [(hm.nodeOf_of_mem_zip ho).span_eq, hdt.span_eq]
  rw [allSegments_eq] at hd houter
  have := (scan_scanned hscan).contains_outer houter hchild hd (Int.ofNat_lt.mp hlt)
    (Int.ofNat_le.mp hle)
  dsimp only
  omega

/-- What holds the inner construct and not the outer one is no construct, and starts no
earlier than the outer one, if no recorded node straddles that. -/
theorem clear_of_not_straddled (hm : Merges parse src scanned markup nodes root)
    (hscan : scan src = .ok scanned) (ho : (o, no) ∈ (allSegments scanned).zip nodes)
    (hc : (c, nc) ∈ (allSegments scanned).zip nodes) (hchild : c ∈ o.children)
    (hclear : ∀ r ∈ preorderAll (recordedTrees markup nodes), isTextLeaf r = false →
      ¬ Straddles r no nc) {done : List Tree}
    (hdone : ∀ t ∈ done, t ∈ nodes ∧ (ofTree t).start < (ofTree nc).start) {v : Tree}
    (hknown : v.head ∈ done.map Tree.head
      ∨ ∃ r ∈ preorderAll (recordedTrees markup nodes), isTextLeaf r = false ∧ r.head = v.head)
    (hinner : isContainer (ofTree nc) v = true) (houter : isContainer (ofTree no) v = false) :
    v.head ∉ done.map Tree.head ∧ (ofTree no).start ≤ (ofTree v).start := by
  obtain ⟨hvleaf, hvstart, hvstop⟩ := isContainer_iff.mp hinner
  have hnot : ¬ ((ofTree v).start ≤ (ofTree no).start ∧ (ofTree no).stop ≤ (ofTree v).stop) :=
    mt Span.contains_iff.mpr (not_contains_of_isContainer houter hvleaf)
  have hconstruct : v.head ∉ done.map Tree.head := by
    intro hmem
    obtain ⟨t, ht, hhead⟩ := List.mem_map.mp hmem
    obtain ⟨htnodes, hlt⟩ := hdone t ht
    rw [← ofTree_of_head hhead] at hnot hvstop
    exact hnot (hm.contains_outer hscan ho hc hchild htnodes hlt hvstop)
  obtain ⟨r, hr, hrleaf, hhead⟩ := hknown.resolve_left hconstruct
  refine ⟨hconstruct, ?_⟩
  by_contra hlt
  refine hclear r hr hrleaf ⟨?_, ?_, ?_⟩ <;> rw [ofTree_of_head hhead] <;> omega

/-- The trees of a merge of nested recorded trees are steady. -/
theorem steady (hm : Merges parse src scanned markup nodes root) (hscan : scan src = .ok scanned)
    (hrec : RecordedNested parse src scanned) (hnodes : nodes = before ++ after) :
    ∃ low, Steady (recordedTrees markup before) before low
      (insertAll (sourceOf src scanned) markup before) := by
  obtain ⟨hmarkup, hcode⟩ := hm.precedes hscan hrec
  have hnode := hm.node hscan
  have hstarts := hm.starts_increase hscan
  have hmem : ∀ t ∈ before, t ∈ nodes := fun t ht => hnodes ▸ List.mem_append_left _ ht
  have hfirst : Steady (recordedTrees markup before) [] (-1) markup := by
    refine ⟨hmarkup.imp fun _ _ => Precedes.ranked, fun v hv _ => ?_, fun v hv hleaf => .inr ?_⟩
    · exact (inOrder_of_precedes hmarkup).below hv
    · exact ⟨v, mem_recordedTrees.mpr (.inl hv), hleaf, rfl⟩
  refine hfirst.insertAll (fun t ht => ?_) ?_ fun t ht => ⟨(hnode t (hmem t ht)).2.1,
    hcode t (hmem t ht), fun v hv => mem_recordedTrees.mpr (.inr ⟨t, ht, hv⟩)⟩
  · exact Int.lt_of_lt_of_le (by decide) (hnode t (hmem t ht)).1
  · rw [hnodes] at hstarts
    exact (List.pairwise_append.mp hstarts).1

/-- **A nested construct is inserted through the one it is nested in**, if no recorded
node straddles that one. -/
theorem passesThrough (hm : Merges parse src scanned markup nodes root)
    (hscan : scan src = .ok scanned) (hrec : RecordedNested parse src scanned)
    (ho : (o, no) ∈ (allSegments scanned).zip nodes)
    (hc : (c, nc) ∈ (allSegments scanned).zip nodes) (hchild : c ∈ o.children)
    (hclear : ∀ r ∈ preorderAll (recordedTrees markup nodes), isTextLeaf r = false →
      ¬ Straddles r no nc) :
    PassesThrough (sourceOf src scanned) markup nodes no nc := by
  have hnode := hm.node hscan
  obtain ⟨hlow, hne, hhigh⟩ := hm.span_of_child hscan ho hc hchild
  obtain ⟨before, after, hnodes⟩ := List.append_of_mem (List.of_mem_zip hc).2
  have hstarts := hm.starts_increase hscan
  rw [hnodes, List.pairwise_append, List.pairwise_cons] at hstarts
  obtain ⟨hfirst, ⟨hlater, -⟩, hcross⟩ := hstarts
  have hmem : ∀ t ∈ before, t ∈ nodes := fun t ht => hnodes ▸ List.mem_append_left _ ht
  -- constructs are inserted in the order of their starts
  have houter : no ∈ before := by
    rcases List.mem_append.mp (hnodes ▸ (List.of_mem_zip ho).2) with hmem | hmem
    · exact hmem
    · rcases List.mem_cons.mp hmem with rfl | hmem
      · omega
      · have := hlater no hmem
        omega
  obtain ⟨low, hsteady⟩ := hm.steady hscan hrec hnodes
  have hpath : pathTo (ofTree no) (insertAll (sourceOf src scanned) markup before)
      <+: pathTo (ofTree nc) (insertAll (sourceOf src scanned) markup before) := by
    refine pathTo_of_inside (Span.contains_iff.mpr ⟨Int.le_of_lt hlow, hhigh⟩) hne hsteady.ranked
      fun v hv hinner hnot => ?_
    refine hm.clear_of_not_straddled hscan ho hc hchild hclear (fun t ht => ?_)
      ((hsteady.known v hv (isContainer_iff.mp hinner).1).imp_right ?_) hinner hnot
    · exact ⟨hmem t ht, hcross t ht nc (List.mem_cons_self ..)⟩
    · rintro ⟨r, hr, hrec⟩
      exact ⟨r, recordedTrees_mono hmem hr, hrec⟩
  refine ⟨before, after, hnodes, hpath.subset ?_⟩
  exact head_mem_pathTo_insertAll hfirst (fun t ht => (hnode t (hmem t ht)).2) houter

end Merges

/-- **The nesting of a template's constructs.** The node of a nested construct is below
that of the outer one if it is inserted through it; only then, if no recorded node has
its head; and it is, if no recorded node straddles the outer one. -/
theorem buildTemplate_nesting {tolerance : Tolerance} {path : String} {built : Analysis.Built}
    (h : Analysis.buildTemplate parse tolerance path src = .ok built) :
    ∃ scanned markup nodes, scan src = .ok scanned
      ∧ Merges parse src scanned markup nodes built.root
      ∧ ∀ o no c nc, (o, no) ∈ (allSegments scanned).zip nodes →
        (c, nc) ∈ (allSegments scanned).zip nodes → c ∈ o.children →
          (PassesThrough (sourceOf src scanned) markup nodes no nc →
            Below no.head nc.head built.root)
          ∧ (¬ Has nc.head (recordedTrees markup nodes) →
            Below no.head nc.head built.root →
              PassesThrough (sourceOf src scanned) markup nodes no nc)
          ∧ (RecordedNested parse src scanned →
            (∀ r ∈ preorderAll (recordedTrees markup nodes), isTextLeaf r = false →
              ¬ Straddles r no nc) → Below no.head nc.head built.root) := by
  obtain ⟨scanned, markup, nodes, hscan, hm⟩ := buildTemplate_merges _ h
  refine ⟨scanned, markup, nodes, hscan, hm, fun o no c nc ho hc hchild => ?_⟩
  have hnode := hm.node hscan
  have hkind := (hnode nc (List.of_mem_zip hc).2).2.2
  rw [hm.root_eq]
  refine ⟨fun hp => hp.below hkind, fun hown hbelow => ?_, fun hrec hclear => ?_⟩
  · obtain ⟨before, after, rfl⟩ := List.append_of_mem (List.of_mem_zip hc).2
    exact ⟨before, after, rfl, (below_insertAll_iff (hm.starts_increase hscan)
      (fun t ht => (hnode t ht).2) hown).mp hbelow⟩
  · exact (hm.passesThrough hscan hrec ho hc hchild hclear).below hkind

/-- A block with a line of markup that holds an expression: `@{@:a @b⏎}`. -/
def nestedSource : Bytes := #[0x40, 0x7B, 0x40, 0x3A, 0x61, 0x20, 0x40, 0x62, 0x0A, 0x7D]

/-- Nothing but a text is recorded. -/
def nestedParse : Parse :=
  recordedParse (namedNode "document" 4 10 [namedNode "text" 4 5 []])
    (namedNode "compilation_unit" 0 0 [])

/-- An expression on a line of markup in a block is below the block. -/
theorem buildTemplate_nesting_line : ∃ scanned built markup nodes,
    scan nestedSource = .ok scanned
      ∧ (allSegments scanned).map (fun s => (s.start, s.children.length)) = [(0, 1), (6, 0)]
      ∧ Analysis.buildTemplate nestedParse .half "nested" nestedSource = .ok built
      ∧ Merges nestedParse nestedSource scanned markup nodes built.root
      ∧ ∀ o no c nc, (o, no) ∈ (allSegments scanned).zip nodes →
        (c, nc) ∈ (allSegments scanned).zip nodes → c ∈ o.children →
          Below no.head nc.head built.root := by
  have hsegments : (scan nestedSource).map
      (fun scanned => (allSegments scanned).map fun s => (s.start, s.children.length))
        = .ok [(0, 1), (6, 0)] := by decide +kernel
  have hformed : (scan nestedSource).toOption.all (wellFormed nestedParse nestedSource) = true := by
    decide +kernel
  have hrecorded : (scan nestedSource).toOption.all (fun scanned =>
      (recordedOf nestedParse nestedSource scanned).toOption.all fun trees =>
        (preorderAll trees).all isTextLeaf) = true := by decide +kernel
  have hrun : (Analysis.buildTemplate nestedParse .half "nested" nestedSource).map
      (fun built => built.root.preorder.length) = .ok 4 := by decide +kernel
  obtain ⟨built, hbuilt, -⟩ := Answers.exists_of_map hrun
  obtain ⟨scanned, markup, nodes, hscan, hm, hnested⟩ := buildTemplate_nesting hbuilt
  have hwell := Answers.of_all hformed scanned hscan
  have hall := Answers.of_all (Answers.of_all hrecorded scanned hscan) _ hm.recordedOf_eq
  rw [hscan] at hsegments
  refine ⟨scanned, built, markup, nodes, hscan, Except.ok.inj hsegments, hbuilt, hm,
    fun o no c nc ho hc hchild => ?_⟩
  refine (hnested o no c nc ho hc hchild).2.2 (recordedNested_of_wellFormed hwell)
    fun r hr hleaf => ?_
  rw [List.all_eq_true.mp hall r hr] at hleaf
  cases hleaf

/-! ## A construct that is straddled -/

/-- **Whether each nested construct has its node below that of the outer one.** -/
def keepsNesting (parse : Parse) (src : Bytes) (scanned : List Segment) (root : Tree) : Bool :=
  (allSegments scanned).all fun o => o.children.all fun c =>
    (segmentNode parse src (LineIndex.ofSource src) o).toOption.all fun no =>
      (segmentNode parse src (LineIndex.ofSource src) c).toOption.all fun nc =>
        Below no.1.head nc.1.head root

/-- A condition that closes an element and opens another: `<b>@{@if(a){@c</b><b>}}</b>`. -/
def straddledSource : Bytes :=
  #[0x3C, 0x62, 0x3E, 0x40, 0x7B, 0x40, 0x69, 0x66, 0x28, 0x61, 0x29, 0x7B, 0x40, 0x63, 0x3C,
    0x2F, 0x62, 0x3E, 0x3C, 0x62, 0x3E, 0x7D, 0x7D, 0x3C, 0x2F, 0x62, 0x3E]

/-- The elements of the markup, one after the other. -/
def straddledParse : Parse :=
  recordedParse
    (namedNode "document" 0 27
      [namedNode "element" 0 18 [namedNode "start_tag" 0 3 [], namedNode "end_tag" 14 18 []],
        namedNode "element" 18 27 [namedNode "start_tag" 18 21 [], namedNode "end_tag" 23 27 []]])
    (namedNode "compilation_unit" 0 0 [])

/-- **Well-formed trees are not enough for the nesting.** The first element straddles the
block and the condition, and holds the expression. -/
theorem buildTemplate_straddled : ∃ scanned built, scan straddledSource = .ok scanned
    ∧ wellFormed straddledParse straddledSource scanned = true
    ∧ Analysis.buildTemplate straddledParse .half "straddled" straddledSource = .ok built
    ∧ keepsNesting straddledParse straddledSource scanned built.root = false := by
  have hformed : (scan straddledSource).map (wellFormed straddledParse straddledSource)
      = .ok true := by decide +kernel
  have hrun : (Analysis.buildTemplate straddledParse .half "straddled" straddledSource).map
      (fun built => (scan straddledSource).toOption.all
        (keepsNesting straddledParse straddledSource · built.root)) = .ok false := by
    decide +kernel
  obtain ⟨scanned, hscan, hwell⟩ := Answers.exists_of_map hformed
  obtain ⟨built, hbuilt, hlost⟩ := Answers.exists_of_map hrun
  rw [hscan] at hlost
  exact ⟨scanned, built, hscan, hwell, hbuilt, hlost⟩

end SyntaxForest.Template
