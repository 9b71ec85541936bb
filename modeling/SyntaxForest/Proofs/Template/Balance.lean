import Mathlib.Data.List.Induction
import SyntaxForest.Proofs.Template.Laminar
import SyntaxForest.Proofs.Template.Nesting
import SyntaxForest.Proofs.Template.Texts

/-!
# Text without code

No text of a built template holds code if the recorded trees are balanced (`Balanced`): an
element keeps to the runs of the constructs that it does not contain, a node of code takes
in a run whole or not at all, and no text of the markup shows two runs of one construct.

The tree is then a forest at every step of the merge (`Merges.forest`). In a forest a text that
overlaps a construct stands below its node, hence inside it, and a tight text inside a
construct begins and ends in the same run.

Text that is recorded across the code between two runs is not balanced, and it is never cut
there, because the insertions cut at the ends of constructs only: `buildTemplate_texts_crossed`
is such a template.
-/

namespace SyntaxForest.Template

open SyntaxForest.Template.Span (ofTree)
open SyntaxForest.Tree (preorderAll)
open Segment

variable {parse : Parse} {src view : Bytes} {scanned : List Segment} {s d : Segment}
variable {span : Span} {root markup t u v c x : Tree} {nodes before after : List Tree}
variable {run : Range}

/-! ## Balanced trees -/

/-- Whether a node holds an offset of the source. -/
def holds (x : Tree) (i : Nat) : Bool := (ofTree x).start ≤ i && i < (ofTree x).stop

/-- Whether a node shows a byte of a range. -/
def showsIn (view : Bytes) (x : Tree) (r : Range) : Bool :=
  (List.range view.size).any fun i => shows view i && r.has i && holds x i

/-- **Recorded trees that keep to the runs of the constructs.** -/
structure Balanced (view : Bytes) (scanned : List Segment) (markup : Tree) (nodes : List Tree) :
    Prop where
  /-- An element that overlaps a construct contains it or lies in one of its runs. -/
  element : ∀ r ∈ preorderAll markup.children, isTextLeaf r = false → ∀ s ∈ allSegments scanned,
    (ofTree r).overlaps s.range.span = true → (ofTree r).contains s.range.span = true
      ∨ ∃ run ∈ s.markup, run.span.contains (ofTree r) = true
  /-- A node of the code of a construct contains the runs that it overlaps. -/
  code : ∀ p ∈ (allSegments scanned).zip nodes, ∀ u ∈ preorderAll p.2.children,
    ∀ run ∈ p.1.markup, (ofTree u).overlaps run.span = true →
      (ofTree u).contains run.span = true
  /-- A text of the markup shows one run of a construct at most. -/
  text : ∀ r ∈ preorderAll markup.children, isTextLeaf r = true → ∀ s ∈ allSegments scanned,
    ∀ a ∈ s.markup, ∀ b ∈ s.markup, showsIn view r a = true → showsIn view r b = true → a = b

instance : Decidable (Balanced view scanned markup nodes) :=
  decidable_of_iff (_ ∧ _ ∧ _) ⟨fun ⟨he, hc, ht⟩ => ⟨he, hc, ht⟩,
    fun ⟨he, hc, ht⟩ => ⟨he, hc, ht⟩⟩

theorem holds_iff {i : Nat} :
    holds x i = true ↔ (ofTree x).start ≤ i ∧ (i : Int) < (ofTree x).stop := by
  rw [holds, Bool.and_eq_true, decide_eq_true_iff, decide_eq_true_iff]

theorem showsIn_of_has {r : Range} {i : Nat} (hi : shows view i = true) (hr : r.has i = true)
    (hx : holds x i = true) : showsIn view x r = true := by
  refine List.any_eq_true.mpr ⟨i, List.mem_range.mpr (shows_lt hi), ?_⟩
  rw [hi, hr, hx]
  rfl

/-- **A text inside a construct lies in one of its runs.** -/
theorem Balanced.exists_run_of_text (h : Balanced (markupView src scanned) scanned markup nodes)
    (hn : s.Nested) (hs : s ∈ allSegments scanned) (hx : TextOf (markupView src scanned) markup x)
    (hleaf : isTextLeaf x = true) (hin : s.range.span.contains (ofTree x) = true) :
    ∃ run ∈ s.markup, run.span.contains (ofTree x) = true := by
  obtain ⟨htight, r, hr, hrleaf, hcontains⟩ := hx hleaf
  obtain ⟨first, last, hspan, hle, hfirst, hlast, ⟨a, ha, hfa⟩, ⟨b, hb, hlb⟩⟩ :=
    htight.exists_runs hn hs hin
  rw [hspan, Span.contains_iff] at hcontains
  dsimp only at hcontains
  have heq : a = b := h.text r hr hrleaf s hs a ha b hb
    (showsIn_of_has hfirst hfa (holds_iff.mpr (by omega)))
    (showsIn_of_has hlast hlb (holds_iff.mpr (by omega)))
  subst heq
  rw [Range.has_iff] at hfa hlb
  refine ⟨a, ha, ?_⟩
  rw [hspan, Span.contains_iff, Range.span]
  dsimp only
  omega

/-! ## The nodes of a tree in the course of a merge -/

/-- The runs of a construct lie inside it. -/
theorem Segment.Nested.contains_run (h : s.Nested) (hrun : run ∈ s.markup) :
    s.range.span.contains run.span = true := by
  have := h.runs_chain.of_mem hrun
  rw [Span.contains_iff, Range.span, Range.span, range]
  dsimp only
  omega

/-- A spanned tree is laid. -/
theorem laid_of_spanned (h : Spanned t) : Laid t :=
  ⟨h.precedes.imp fun _ _ hab => separate_iff.mpr (.inr hab.2), h.inside⟩

namespace Merges

/-- **What is in the tree when a construct is inserted**, if it is no text: an earlier
construct, an element of the markup, or a node of the code of an earlier construct. -/
theorem known (hm : Merges parse src scanned markup nodes root) (hscan : scan src = .ok scanned)
    (hrec : RecordedNested parse src scanned) (hnodes : nodes = before ++ after)
    (hv : v ∈ preorderAll (insertAll (sourceOf src scanned) markup before).children)
    (hleaf : isTextLeaf v = false) : (∃ u ∈ before, ofTree v = ofTree u)
      ∨ (∃ r ∈ preorderAll markup.children, isTextLeaf r = false ∧ ofTree v = ofTree r)
      ∨ ∃ u ∈ before, ∃ r ∈ preorderAll u.children, ofTree v = ofTree r := by
  obtain ⟨low, hsteady⟩ := hm.steady hscan hrec hnodes
  rcases hsteady.known v hv hleaf with hdone | ⟨r, hr, hrleaf, hhead⟩
  · obtain ⟨u, hu, hhead⟩ := List.mem_map.mp hdone
    exact .inl ⟨u, hu, (ofTree_of_head hhead).symm⟩
  · have hspan := (ofTree_of_head hhead).symm
    rcases mem_recordedTrees.mp hr with hr | ⟨u, hu, hr⟩
    · exact .inr (.inl ⟨r, hr, hrleaf, hspan⟩)
    · exact .inr (.inr ⟨u, hu, r, hr, hspan⟩)

/-- The code of a construct lies inside it, in a tree that follows its spans. -/
theorem node_laid (hm : Merges parse src scanned markup nodes root) (hscan : scan src = .ok scanned)
    (hrec : RecordedNested parse src scanned) (ht : t ∈ nodes) : Laid t :=
  laid_of_spanned (hm.node_spanned hscan hrec ht)

/-- The markup of a merge is a forest. -/
theorem markup_forest (hm : Merges parse src scanned markup nodes root)
    (hrec : RecordedNested parse src scanned) : Forest markup.children := by
  obtain ⟨t, ht, hchildren⟩ := hm.markup_spanned hrec
  exact hchildren ▸ (laid_iff.mp (laid_of_spanned ht)).1

/-- **A construct that overlaps an earlier one lies in one of its runs.** -/
theorem exists_run_of_before (hm : Merges parse src scanned markup nodes root)
    (hscan : scan src = .ok scanned) (hd : (d, u) ∈ (allSegments scanned).zip nodes)
    (hs : (s, t) ∈ (allSegments scanned).zip nodes) (hlt : (ofTree u).start < (ofTree t).start)
    (hover : (ofTree u).overlaps (ofTree t) = true) :
    ∃ run ∈ d.markup, run.span.contains (ofTree t) = true := by
  rw [Span.overlaps_iff] at hover
  rw [(hm.nodeOf_of_mem_zip hd).span_eq, (hm.nodeOf_of_mem_zip hs).span_eq] at hlt hover
  have hdmem := (List.of_mem_zip hd).1
  have hsmem := (List.of_mem_zip hs).1
  rw [allSegments_eq] at hdmem hsmem
  obtain ⟨run, hrun, hwithin⟩ := (scan_scanned hscan).exists_run hdmem hsmem
    (Int.ofNat_lt.mp hlt) (Int.ofNat_lt.mp hover.2)
  refine ⟨run, hrun, ?_⟩
  rw [Range.within_iff] at hwithin
  rw [(hm.nodeOf_of_mem_zip hs).span_eq, Span.contains_iff, Range.span]
  simp only [range] at hwithin ⊢
  omega

/-- **All text is of the markup**, at every step of the merge. -/
theorem textOf (hm : Merges parse src scanned markup nodes root) (hscan : scan src = .ok scanned)
    (htexts : RecordedTexts (markupView src scanned) markup nodes) (hsub : before ⊆ nodes) :
    ∀ x ∈ preorderAll (insertAll (sourceOf src scanned) markup before).children,
      TextOf (markupView src scanned) markup x := by
  refine insertAll_textOf (s := sourceOf src scanned)
    ⟨htexts.tight, fun t ht => htexts.code t (hsub ht)⟩ fun t ht => ?_
  obtain ⟨-, hne, hkind⟩ := hm.node hscan t (hsub ht)
  exact ⟨Int.le_of_lt hne, hkind⟩

/-! ## One insertion -/

section Insertion

variable (hm : Merges parse src scanned markup nodes root) (hscan : scan src = .ok scanned)
variable (hrec : RecordedNested parse src scanned)
variable (hbal : Balanced (markupView src scanned) scanned markup nodes)
variable (hnodes : nodes = before ++ t :: after) (hs : (s, t) ∈ (allSegments scanned).zip nodes)

include hm hscan hrec hbal hnodes hs

/-- **What overlaps the next construct** contains it or lies in one of its runs. -/
theorem contains_or_within
    (hv : v ∈ preorderAll (insertAll (sourceOf src scanned) markup before).children)
    (hleaf : isTextLeaf v = false) (hover : (ofTree v).overlaps (ofTree t) = true) :
    (ofTree v).contains (ofTree t) = true
      ∨ ∃ run ∈ s.markup, run.span.contains (ofTree v) = true := by
  have hstarts := hm.starts_increase hscan
  rw [hnodes, List.pairwise_append] at hstarts
  have hearlier : ∀ u ∈ before, u ∈ nodes ∧ (ofTree u).start < (ofTree t).start := fun u hu =>
    ⟨hnodes ▸ List.mem_append_left _ hu, hstarts.2.2 u hu t (List.mem_cons_self ..)⟩
  rcases hm.known hscan hrec hnodes hv hleaf with ⟨u, hu, hspan⟩ | ⟨r, hr, hrleaf, hspan⟩
    | ⟨u, hu, r, hr, hspan⟩ <;> rw [hspan] at hover ⊢
  · obtain ⟨hmem, hlt⟩ := hearlier u hu
    obtain ⟨d, hd⟩ := hm.exists_zip hmem
    obtain ⟨run, hrun, hcontains⟩ := hm.exists_run_of_before hscan hd hs hlt hover
    have hnested := scan_nested hscan (List.of_mem_zip hd).1
    rw [(hm.nodeOf_of_mem_zip hd).span_eq]
    exact .inl (Span.contains_trans (hnested.contains_run hrun) hcontains)
  · rw [(hm.nodeOf_of_mem_zip hs).span_eq] at hover ⊢
    exact hbal.element r hr hrleaf s (List.of_mem_zip hs).1 hover
  · obtain ⟨hmem, hlt⟩ := hearlier u hu
    obtain ⟨d, hd⟩ := hm.exists_zip hmem
    have hinside := (hm.node_laid hscan hrec hmem).contains (Tree.mem_preorder_of_below hr)
    obtain ⟨run, hrun, hcontains⟩ := hm.exists_run_of_before hscan hd hs hlt
      (Span.whole_overlaps hinside hover)
    have hoverRun := Span.overlaps_whole hcontains hover
    exact .inl (Span.contains_trans (hbal.code (d, u) hd r hr run hrun hoverRun) hcontains)

/-- **What the next construct takes in** lies in one of its runs. -/
theorem within_of_insideOf (htexts : RecordedTexts (markupView src scanned) markup nodes)
    (hc : c ∈ insideOf (sourceOf src scanned) t
      (siblingsAt (ofTree t) (insertAll (sourceOf src scanned) markup before)))
    (hover : (ofTree c).overlaps (ofTree t) = true) :
    ∃ run ∈ s.markup, run.span.contains (ofTree c) = true := by
  have hat := insert_atHome (sourceOf src scanned) t
    (insertAll (sourceOf src scanned) markup before)
  have hcut := Int.le_of_lt (hm.node hscan t (hnodes ▸ by simp)).2.1
  obtain ⟨⟨u, hu, hcu⟩, hinside⟩ := mem_insideOf.mp hc
  cases hleaf : isTextLeaf c with
  | false =>
    have huc : c = u := by
      rcases mem_cutAt hcut hcu with ⟨heq, -⟩ | ⟨-, hpiece⟩
      · exact heq
      · rw [hpiece.leaf] at hleaf
        cases hleaf
    subst huc
    have hold := hat.mem_of_old (Tree.mem_preorderAll_of_mem hu)
    exact (contains_or_within hm hscan hrec hbal hnodes hs hold hleaf hover).resolve_left
      (not_contains_of_isContainer (hat.old_none c hu) hleaf)
  | true =>
    have hsub : before ⊆ nodes := hnodes ▸ List.subset_append_left ..
    have htext : TextOf (markupView src scanned) markup c := by
      refine forall_cutAt hcut (textOf_kept (s := sourceOf src scanned) hcut) (fun x hx => ?_) hcu c
        c.mem_preorder_self
      exact hm.textOf hscan htexts hsub x (hat.mem_of_old
        (Tree.mem_preorderAll_of_preorder (Tree.mem_preorderAll_of_mem hu) hx))
    have hmem := (List.of_mem_zip hs).1
    rw [(hm.nodeOf_of_mem_zip hs).span_eq] at hinside
    exact hbal.exists_run_of_text (scan_nested hscan hmem) hmem htext hleaf hinside

/-- **One insertion keeps the forest.** -/
theorem insert_forest (htexts : RecordedTexts (markupView src scanned) markup nodes)
    (hroot : Forest (insertAll (sourceOf src scanned) markup before).children) :
    Forest (insert (sourceOf src scanned) t
      (insertAll (sourceOf src scanned) markup before)).children := by
  have hmem : t ∈ nodes := hnodes ▸ by simp
  have hlaid := hm.node_laid hscan hrec hmem
  have hnested := scan_nested hscan (List.of_mem_zip hs).1
  refine Template.insert_forest (Int.le_of_lt (hm.node hscan t hmem).2.1) hlaid hroot
    (fun v hv hleaf hover => ?_) fun c hc d hd hover => ⟨htexts.code t hmem d hd, ?_⟩
  · refine (contains_or_within hm hscan hrec hbal hnodes hs hv hleaf hover).imp_right ?_
    rintro ⟨run, hrun, hwithin⟩
    rw [(hm.nodeOf_of_mem_zip hs).span_eq]
    exact Span.contains_trans (hnested.contains_run hrun) hwithin
  · have hinside := hlaid.contains (Tree.mem_preorder_of_below hd)
    have hoverSelf := Span.overlaps_whole hinside (Span.overlaps_comm .. ▸ hover)
    obtain ⟨run, hrun, hwithin⟩ := within_of_insideOf hm hscan hrec hbal hnodes hs htexts hc
      hoverSelf
    have hoverRun := Span.overlaps_whole hwithin hover
    exact Span.contains_trans (hbal.code (s, t) hs d hd run hrun hoverRun) hwithin

end Insertion

/-! ## A run of insertions -/

/-- **Balanced trees are merged to a forest.** -/
theorem forest (hm : Merges parse src scanned markup nodes root) (hscan : scan src = .ok scanned)
    (hrec : RecordedNested parse src scanned)
    (htexts : RecordedTexts (markupView src scanned) markup nodes)
    (hbal : Balanced (markupView src scanned) scanned markup nodes)
    (hnodes : nodes = before ++ after) :
    Forest (insertAll (sourceOf src scanned) markup before).children := by
  induction before using List.reverseRecOn generalizing after with
  | nil => exact hm.markup_forest hrec
  | append_singleton before t ih =>
    rw [List.append_assoc, List.singleton_append] at hnodes
    obtain ⟨s, hs⟩ := hm.exists_zip (t := t) (hnodes ▸ by simp)
    rw [insertAll_append]
    exact hm.insert_forest hscan hrec hbal hnodes hs htexts (ih hnodes)

/-! ## The tree of a template -/

theorem root_kind (hm : Merges parse src scanned markup nodes root) : root.kind = rootKind := by
  obtain ⟨t, -, rfl⟩ := hm.markup_eq
  rw [hm.root_eq]
  refine (congrArg Prod.fst (insertAll_head ..) : _ = (markupTree src t).kind).trans ?_
  cases t
  rfl

/-- **The node of a construct is in the tree.** -/
theorem exists_node (hm : Merges parse src scanned markup nodes root)
    (hscan : scan src = .ok scanned) (hs : s ∈ allSegments scanned) :
    ∃ v ∈ preorderAll root.children, v.kind = s.construct.kind ∧ ofTree v = s.range.span := by
  obtain ⟨t, hst⟩ := hm.exists_zip_of_segment hs
  have hpath : t.head ∈ pathTo (ofTree t) (insertAll (sourceOf src scanned) markup nodes) :=
    head_mem_pathTo_insertAll (hm.starts_increase hscan) (fun u hu => (hm.node hscan u hu).2)
      (List.of_mem_zip hst).2
  rw [← hm.root_eq] at hpath
  obtain ⟨v, hv, hhead⟩ := exists_of_mem_pathTo hpath
  have hkind : v.kind = s.construct.kind :=
    (congrArg Prod.fst hhead).trans (hm.nodeOf_of_mem_zip hst).kind_eq
  refine ⟨v, ?_, hkind, (ofTree_of_head hhead).trans (hm.nodeOf_of_mem_zip hst).span_eq⟩
  rw [Tree.preorder_eq, List.mem_cons] at hv
  refine hv.resolve_left ?_
  rintro rfl
  rw [hm.root_kind] at hkind
  exact s.construct.kind_ne_rootKind hkind.symm

/-- The root is no text. -/
theorem mem_below_of_isTextLeaf (hm : Merges parse src scanned markup nodes root)
    (hx : x ∈ root.preorder) (hleaf : isTextLeaf x = true) : x ∈ preorderAll root.children := by
  rw [Tree.preorder_eq, List.mem_cons] at hx
  refine hx.resolve_left ?_
  rintro rfl
  rw [not_isTextLeaf_of_kind (hm.root_kind ▸ by decide)] at hleaf
  cases hleaf

/-- **A text of balanced trees holds no code.** -/
theorem not_holds (hm : Merges parse src scanned markup nodes root) (hscan : scan src = .ok scanned)
    (hrec : RecordedNested parse src scanned)
    (htexts : RecordedTexts (markupView src scanned) markup nodes)
    (hbal : Balanced (markupView src scanned) scanned markup nodes) (hx : x ∈ root.preorder)
    (hleaf : isTextLeaf x = true) (hs : s ∈ allSegments scanned) {r : Range}
    (hr : r ∈ s.codeRanges) {i : Nat} (hi : r.has i = true) : holds x i = false := by
  refine eq_false_of_ne_true fun hhas => ?_
  have hnested := scan_nested hscan hs
  have hbelow := hm.mem_below_of_isTextLeaf hx hleaf
  have hforest := hm.forest hscan hrec htexts hbal (List.append_nil nodes).symm
  have htext := hm.textOf hscan htexts (List.Subset.refl nodes) x (hm.root_eq ▸ hbelow)
  rw [← hm.root_eq] at hforest
  obtain ⟨v, hv, hkind, hspan⟩ := hm.exists_node hscan hs
  -- the text shares the offset with the node of the construct
  have hrange := Range.has_iff.mp (hnested.has_of_codeRanges hr hi)
  rw [holds_iff] at hhas
  have hover : (ofTree x).overlaps (ofTree v) = true := by
    rw [hspan, Span.overlaps_iff, Range.span]
    dsimp only
    omega
  have hunder : x ∈ v.preorder := by
    refine (hforest.mem_or_mem hbelow hv hover).resolve_right fun hvx => ?_
    rw [preorder_of_isTextLeaf hleaf, List.mem_singleton] at hvx
    subst hvx
    rw [not_isTextLeaf_of_kind (hkind ▸ s.construct.kind_ne_text)] at hleaf
    cases hleaf
  have hinside := (hforest.of_mem hv).contains hunder
  rw [hspan] at hinside
  -- inside the construct, it lies in a run
  obtain ⟨run, hrun, hwithin⟩ := hbal.exists_run_of_text hnested hs htext hleaf hinside
  have hout := hnested.not_has_of_codeRanges hr hrun hi
  rw [Span.contains_iff, Range.span] at hwithin
  dsimp only at hwithin
  rw [Bool.eq_false_iff, ne_eq, Range.has_iff] at hout
  omega

end Merges

/-- **Whether a node shows code**: a byte in the code of a construct that is no white space. -/
def showsCode (src : Bytes) (scanned : List Segment) (x : Tree) : Bool :=
  (allSegments scanned).any fun s => s.codeRanges.any fun r => (List.range src.size).any fun i =>
    r.has i && holds x i && (src[i]?).any fun b => !Bytes.isWhite b

/-- **The texts of a template.** Every text of a built tree lies in a text of the markup and
begins and ends with what the markup shows. If it holds code of a construct, it reaches beyond
the construct or crosses the code from one run into another. If the recorded trees are
balanced, no text shows code. -/
theorem buildTemplate_texts {tolerance : Tolerance} {path : String} {built : Analysis.Built}
    (h : Analysis.buildTemplate parse tolerance path src = .ok built) :
    ∃ scanned markup nodes, scan src = .ok scanned
      ∧ Merges parse src scanned markup nodes built.root
      ∧ (RecordedTexts (markupView src scanned) markup nodes →
        ∀ x ∈ built.root.preorder, isTextLeaf x = true →
          (Tight (markupView src scanned) (ofTree x) ∧ ∃ r ∈ preorderAll markup.children,
            isTextLeaf r = true ∧ (ofTree r).contains (ofTree x) = true)
          ∧ (∀ s ∈ allSegments scanned, ∀ r ∈ s.codeRanges, ∀ i, r.has i = true →
            holds x i = true →
              s.range.span.contains (ofTree x) = false ∨ Crosses s (ofTree x) i)
          ∧ (RecordedNested parse src scanned →
            Balanced (markupView src scanned) scanned markup nodes →
              showsCode src scanned x = false)) := by
  obtain ⟨scanned, markup, nodes, hscan, hm⟩ := buildTemplate_merges _ h
  refine ⟨scanned, markup, nodes, hscan, hm, fun htexts x hx hleaf => ?_⟩
  have htext := hm.textOf hscan htexts (List.Subset.refl nodes) x
    (hm.root_eq ▸ hm.mem_below_of_isTextLeaf hx hleaf) hleaf
  refine ⟨htext, fun s hs r hr i hi hhas => ?_, fun hrec hbal => ?_⟩
  · obtain ⟨hstart, hstop⟩ := holds_iff.mp hhas
    exact htext.1.crosses (scan_nested hscan hs) hs hr hi hstart hstop
  · simp only [showsCode, List.any_eq_false]
    intro s hs hany
    obtain ⟨r, hr, hany⟩ := List.any_eq_true.mp hany
    obtain ⟨i, -, hshows⟩ := List.any_eq_true.mp hany
    rw [Bool.and_eq_true, Bool.and_eq_true] at hshows
    rw [hm.not_holds hscan hrec htexts hbal hx hleaf hs hr hshows.1.1] at hshows
    exact nomatch hshows.1.2

/-! ## A text that is cut where the code begins -/

/-- Whether the texts are recorded as they should be, and the recorded trees are balanced. -/
def balancedTexts (parse : Parse) (src : Bytes) (scanned : List Segment) : Bool :=
  let view := markupView src scanned
  (inputsOf parse src scanned).toOption.all fun (markup, nodes) =>
    (preorderAll markup.children).all (fun r => !isTextLeaf r || isTight view (ofTree r))
      && nodes.all (fun t => (preorderAll t.children).all fun u => !isTextLeaf u)
      && Balanced view scanned markup nodes

/-- What the check finds balanced is balanced. -/
theorem Merges.balanced_of (hm : Merges parse src scanned markup nodes root)
    (h : balancedTexts parse src scanned = true) :
    RecordedTexts (markupView src scanned) markup nodes
      ∧ Balanced (markupView src scanned) scanned markup nodes := by
  have hall := Answers.of_all h _ hm.inputsOf_eq
  simp only [Bool.and_eq_true, List.all_eq_true, Bool.or_eq_true, Bool.not_eq_true',
    decide_eq_true_iff] at hall
  obtain ⟨⟨htight, hcode⟩, hbal⟩ := hall
  refine ⟨⟨fun r hr hleaf => tight_of_isTight ((htight r hr).resolve_left fun hnot => ?_), hcode⟩,
    hbal⟩
  rw [hnot] at hleaf
  cases hleaf

/-- A word in front of a block with a line of markup and a statement: `x @{@:a⏎F;}`. -/
def linedSource : Bytes :=
  #[0x78, 0x20, 0x40, 0x7B, 0x40, 0x3A, 0x61, 0x0A, 0x46, 0x3B, 0x7D]

/-- The word and the line are one text of the markup. -/
def linedParse : Parse :=
  recordedParse (namedNode "document" 0 11 [namedNode "text" 0 7 []])
    (namedNode "compilation_unit" 0 6 [namedNode "global_statement" 4 6 []])

/-- A text over a word and a line of markup falls into a piece for each. -/
theorem buildTemplate_texts_lined : ∃ scanned built markup nodes,
    scan linedSource = .ok scanned
      ∧ Analysis.buildTemplate linedParse .half "lined" linedSource = .ok built
      ∧ (built.root.preorder.filter isTextLeaf).map ofTree = [⟨0, 1⟩, ⟨6, 7⟩]
      ∧ Merges linedParse linedSource scanned markup nodes built.root
      ∧ RecordedNested linedParse linedSource scanned
      ∧ RecordedTexts (markupView linedSource scanned) markup nodes
      ∧ Balanced (markupView linedSource scanned) scanned markup nodes
      ∧ ∀ x ∈ built.root.preorder, isTextLeaf x = true →
        showsCode linedSource scanned x = false := by
  have hrecorded : (scan linedSource).toOption.all (fun scanned =>
      wellFormed linedParse linedSource scanned
        && balancedTexts linedParse linedSource scanned) = true := by decide +kernel
  have hrun : (Analysis.buildTemplate linedParse .half "lined" linedSource).map
      (fun built => (built.root.preorder.filter isTextLeaf).map ofTree)
        = .ok [⟨0, 1⟩, ⟨6, 7⟩] := by decide +kernel
  obtain ⟨built, hbuilt, hspans⟩ := Answers.exists_of_map hrun
  obtain ⟨scanned, markup, nodes, hscan, hm, htexts⟩ := buildTemplate_texts hbuilt
  obtain ⟨hwell, hbalanced⟩ := Bool.and_eq_true_iff.mp (Answers.of_all hrecorded scanned hscan)
  have hnested := recordedNested_of_wellFormed hwell
  obtain ⟨hrec, hbal⟩ := hm.balanced_of hbalanced
  exact ⟨scanned, built, markup, nodes, hscan, hbuilt, hspans, hm, hnested, hrec, hbal,
    fun x hx hleaf => (htexts hrec x hx hleaf).2.2 hnested hbal⟩

/-! ## A text across a statement -/

/-- A block with a statement between two lines of markup: `@{@:a⏎F;⏎@:b⏎}`. -/
def crossedSource : Bytes :=
  #[0x40, 0x7B, 0x40, 0x3A, 0x61, 0x0A, 0x46, 0x3B, 0x0A, 0x40, 0x3A, 0x62, 0x0A, 0x7D]

/-- The two lines are one text of the markup, because the statement is blank in its view. -/
def crossedParse : Parse :=
  recordedParse (namedNode "document" 4 14 [namedNode "text" 4 12 []])
    (namedNode "compilation_unit" 0 11 [namedNode "global_statement" 4 6 []])

/-- **Well-formed trees are not enough.** The text that is recorded for both lines stays one
text in the block, and shows the statement between them. -/
theorem buildTemplate_texts_crossed : ∃ scanned built, scan crossedSource = .ok scanned
    ∧ wellFormed crossedParse crossedSource scanned = true
    ∧ Analysis.buildTemplate crossedParse .half "crossed" crossedSource = .ok built
    ∧ ∃ x ∈ built.root.preorder, isTextLeaf x = true
      ∧ showsCode crossedSource scanned x = true := by
  have hformed : (scan crossedSource).map (wellFormed crossedParse crossedSource)
      = .ok true := by decide +kernel
  have hrun : (Analysis.buildTemplate crossedParse .half "crossed" crossedSource).map
      (fun built => (scan crossedSource).toOption.all fun scanned =>
        built.root.preorder.any fun x => isTextLeaf x && showsCode crossedSource scanned x)
        = .ok true := by decide +kernel
  obtain ⟨scanned, hscan, hwell⟩ := Answers.exists_of_map hformed
  obtain ⟨built, hbuilt, hshows⟩ := Answers.exists_of_map hrun
  obtain ⟨x, hx, hleaf⟩ := List.any_eq_true.mp (Answers.of_all hshows scanned hscan)
  exact ⟨scanned, built, hscan, hwell, hbuilt, x, hx, Bool.and_eq_true_iff.mp hleaf⟩

end SyntaxForest.Template
