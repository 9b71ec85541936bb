import Mathlib.Algebra.BigOperators.Group.List.Basic
import SyntaxForest.Proofs.Rounding
import SyntaxForest.Proofs.Template.Wrapping
import SyntaxForest.Proofs.Weight

/-!
# What share of a template its errors are

The errors of the markup are weighed on the source and those of a part of the code on the text
that is parsed, and the sum is held against the content of the source. `Trees.Recorded.merge_eq` is
the exact account of that sum. No content is weighed twice by the markup, by one part, or by two
parts, because the errors of a nested tree are in order and no byte is shown by two views. But
the sum is no count of content that errors cover:

* an error of the markup is weighed on the source and not on the view, so content in it is weighed
  again where an error of the code covers it (`Trees.twice`);
* the text of a part has a wrapper around the part, and an error that reaches into the wrapper
  weighs what no file holds (`Trees.invented`).

What no error covers (`Trees.untouched`) has to make up for both if the share is to be one at
most, and then a tolerance of one rejects nothing.
-/

namespace SyntaxForest

open Number

/-- **A tolerance of one takes a tree** whose errors weigh no more than the source. -/
theorem Analysis.judge_of_le {tolerance : Tolerance} (ht : tolerance.place = .ofInt 1)
    {src : Bytes} {bytes : Nat} (h : bytes ≤ src.contentLength) (path whole : String) (root : Tree)
    (count : Nat) :
    ∃ share, judge tolerance path whole src root count bytes = .ok ⟨root, count, share⟩ := by
  unfold judge
  split
  · next hcount => exact ⟨none, by rw [hcount]⟩
  · dsimp only
    rw [if_pos]
    · exact ⟨_, rfl⟩
    · split
      · obtain ⟨units, hunits, hplace⟩ := Binary64.place_ofMagnitude (Nat.zero_le _)
        exact Tolerance.allows_of_place ht hunits hplace
      · next hcontent => exact Tolerance.allows_ofRatio ht (Nat.pos_of_ne_zero hcontent) h

namespace Template

open Segment SyntaxForest.Template.Span SyntaxForest.Tree Bytes

variable {parse : Parse} {src : Bytes} {scanned : List Segment} {s : Segment} {v : CodeView}
  {t : ParseTree} {lines : LineIndex}

/-! ## A part of the code -/

/-- A byte of content in a view is that of the source. -/
theorem Blanked.getElem?_of_content {part : Range} {view : Bytes} (h : Blanked src part view)
    {i : Nat} {b : UInt8} (hb : view[i]? = some b) (hcontent : (!Bytes.isWhite b) = true) :
    src[part.start + i]? = some b := by
  rcases h.kept_or_space i b hb with hsrc | rfl
  · exact hsrc
  · cases hcontent

namespace CodeView

/-- Whether a part of the code shows content at an offset of the file. -/
def shows (v : CodeView) (i : Nat) : Bool := (v.view.at? i).any fun b => !Bytes.isWhite b

/-- **Whether an error of the code covers** what the part shows at an offset of the file. -/
def faulty (v : CodeView) (t : ParseTree) (i : Nat) : Bool :=
  v.shows i && t.faults.any (·.has (v.lead.size + (i - v.part.start)))

/-- Where the part is in the text that is parsed. -/
def place (v : CodeView) : Range := ⟨v.lead.size, v.lead.size + v.inner.size⟩

/-- **What errors of the code cover of the wrapper.** -/
def invented (v : CodeView) (t : ParseTree) : Nat :=
  v.text.contentOffsets.countP fun i => t.faults.any (·.has i) && !v.place.has i

theorem shows_add (v : CodeView) (i : Nat) : v.shows (v.part.start + i) = v.inner.hasContent i := by
  rw [shows, view, View.at?_mk, if_pos (Nat.le_add_right _ _), Nat.add_sub_cancel_left]
  rfl

theorem start_le_of_shows {i : Nat} (h : v.shows i = true) : v.part.start ≤ i := by
  by_contra hnot
  rw [shows, view, View.at?_mk, if_neg hnot] at h
  cases h

/-- What a part shows is some of the content of the file. -/
theorem contentOffsets_inner (hblanked : Blanked src v.part v.inner) :
    (v.inner.contentOffsets.map (v.part.start + ·)).Perm (src.contentOffsets.filter v.shows) := by
  refine contentOffsets_perm (fun i => ?_) fun i => start_le_of_shows
  rw [shows_add]
  refine ⟨fun h => ⟨?_, h⟩, And.right⟩
  rw [hasContent, Option.any_eq_true] at h ⊢
  exact h.imp fun b hb => ⟨hblanked.getElem?_of_content hb.1 hb.2, hb.2⟩

/-- **The weight of the errors of a part** is what they cover of the file, and of the wrapper. -/
theorem conversion_errorBytes (h : Scanned 0 src.size scanned) (hs : s ∈ allSegments scanned)
    (hv : v ∈ codeViews src s) (ht : t.nested = true) (lines : LineIndex) :
    (v.conversion lines t).errorBytes
      = src.contentOffsets.countP (v.faulty t) + v.invented t := by
  obtain ⟨hblanked, htext⟩ := codeView_blanked h hs hv
  have hsize : v.text.size = v.lead.size + v.inner.size + v.closing.size := by
    rw [htext, Array.size_append, Array.size_append]
  have hinner : v.text.slice v.place.start v.place.stop = v.inner := by
    show v.text.slice v.lead.size (v.lead.size + v.inner.size)
      = v.text.slice v.lead.size (v.text.size - v.closing.size)
    rw [hsize, Nat.add_sub_cancel]
  have hwithin : (v.text.contentOffsets.filter v.place.has).countP
      (fun i => t.faults.any (·.has i)) = src.contentOffsets.countP (v.faulty t) := by
    have hplace := contentOffsets_slice v.text v.place
    rw [hinner] at hplace
    rw [← hplace.countP_eq, List.countP_map]
    have hfile : src.contentOffsets.countP (v.faulty t)
        = (src.contentOffsets.filter v.shows).countP
          fun i => t.faults.any (·.has (v.lead.size + (i - v.part.start))) := by
      rw [List.countP_filter]
      exact List.countP_congr fun i _ => by rw [faulty, Bool.and_comm]
    rw [hfile, ← (contentOffsets_inner hblanked).countP_eq, List.countP_map]
    refine List.countP_congr fun i _ => ?_
    rw [Function.comp_apply, Function.comp_apply, Nat.add_sub_cancel_left]
    rfl
  rw [conversion, ParseTree.convert_errorBytes ht,
    List.countP_eq_countP_filter_add _ _ v.place.has, hwithin, invented]
  congr 1
  rw [List.countP_filter]

end CodeView

/-- The parts of the code of a template. -/
def allCodeViews (src : Bytes) (scanned : List Segment) : List CodeView :=
  (allSegments scanned).flatMap (codeViews src)

/-- The views of all code are those of the constructs. -/
theorem mem_allCodeViews : v ∈ allCodeViews src scanned
    ↔ ∃ s ∈ allSegments scanned, v ∈ codeViews src s := List.mem_flatMap

/-- **No content is shown by two parts.** -/
theorem countP_shows_le_one (h : Scanned 0 src.size scanned) {i : Nat}
    (hi : i ∈ src.contentOffsets) : (allCodeViews src scanned).countP (·.shows i) ≤ 1 := by
  rw [mem_contentOffsets, hasContent, Option.any_eq_true] at hi
  obtain ⟨b, hb, hwhite⟩ := hi
  have hspace : b ≠ 0x20 := by
    rintro rfl
    cases hwhite
  have hline : b ≠ Bytes.newline := by
    rintro rfl
    cases hwhite
  refine Nat.le_trans ?_ (countP_views_le_one h hb hspace hline)
  have hviews : views src scanned
      = ⟨0, markupView src scanned⟩ :: (allCodeViews src scanned).map CodeView.view := by
    rw [views, allCodeViews, List.map_flatMap]
  rw [hviews]
  refine Nat.le_trans ?_ ((List.sublist_cons_self ..).countP_le)
  rw [List.countP_map]
  refine List.countP_mono_left fun v hv hshows => ?_
  obtain ⟨s, hs, hv⟩ := mem_allCodeViews.mp hv
  obtain ⟨j, rfl⟩ := Nat.exists_eq_add_of_le (CodeView.start_le_of_shows hshows)
  rw [CodeView.shows_add, hasContent, Option.any_eq_true] at hshows
  obtain ⟨c, hc, hcontent⟩ := hshows
  have hsame : some c = some b :=
    ((codeView_blanked h hs hv).1.getElem?_of_content hc hcontent).symm.trans hb
  rw [Function.comp_apply, CodeView.view, View.at?_mk, if_pos (Nat.le_add_right _ _),
    Nat.add_sub_cancel_left, hc, hsame]
  exact beq_self_eq_true _

/-! ## What is recorded -/

/-- **The trees of a template**: that of its markup, and those of the parts of its code. -/
structure Trees where
  markup : ParseTree
  code : CodeView → ParseTree

namespace Trees

variable (ts : Trees) (src : Bytes) (scanned : List Segment)

/-- Whether an error of the markup covers an offset of the file. -/
def inMarkup (i : Nat) : Bool := ts.markup.faults.any (·.has i)

/-- Whether an error of the code covers what is shown at an offset of the file. -/
def inCode (i : Nat) : Bool := (allCodeViews src scanned).any fun v => v.faulty (ts.code v) i

/-- **The content that is weighed twice**: in an error of the markup and in one of the code. -/
def twice : Nat := src.contentOffsets.countP fun i => ts.inMarkup i && ts.inCode src scanned i

/-- **The content that no error covers.** -/
def untouched : Nat := src.contentOffsets.countP fun i => !(ts.inMarkup i || ts.inCode src scanned i)

/-- **What errors cover of the wrappers.** -/
def invented : Nat := ((allCodeViews src scanned).map fun v => v.invented (ts.code v)).sum

/-- The weight of the errors of a construct's code. -/
def weightOf (lines : LineIndex) (s : Segment) : Nat :=
  ((codeViews src s).map fun v => (v.conversion lines (ts.code v)).errorBytes).sum

/-- **Trees that the parsers have recorded**, each nested and inside the text that was parsed. -/
structure Recorded (parse : Parse) : Prop where
  markup_eq : parse markupGrammar (markupView src scanned) = .ok ts.markup
  code_eq : ∀ v ∈ allCodeViews src scanned, parse codeGrammar v.text = .ok (ts.code v)
  markup_nested : ts.markup.nested = true
  markup_stop : ts.markup.head.stop ≤ src.size
  code_nested : ∀ v ∈ allCodeViews src scanned, (ts.code v).nested = true
  code_stop : ∀ v ∈ allCodeViews src scanned, (ts.code v).head.stop ≤ v.text.size

end Trees

namespace Trees.Recorded

variable {ts : Trees}

/-- **The weight of the errors of all code** is what they cover of the file, and of the
wrappers. -/
theorem sum_weightOf (hr : ts.Recorded src scanned parse) (h : Scanned 0 src.size scanned)
    (lines : LineIndex) :
    ((allSegments scanned).map (ts.weightOf src lines)).sum
      = src.contentOffsets.countP (ts.inCode src scanned) + ts.invented src scanned := by
  have hparts : ((allSegments scanned).map (ts.weightOf src lines)).sum
      = ((allCodeViews src scanned).map fun v => (v.conversion lines (ts.code v)).errorBytes).sum := by
    rw [allCodeViews, List.map_flatMap, List.flatMap_def, List.sum_flatten, List.map_map]
    rfl
  have heach : (allCodeViews src scanned).map (fun v => (v.conversion lines (ts.code v)).errorBytes)
      = (allCodeViews src scanned).map fun v =>
        src.contentOffsets.countP (v.faulty (ts.code v)) + v.invented (ts.code v) := by
    refine List.map_congr_left fun v hv => ?_
    obtain ⟨s, hs, hvs⟩ := mem_allCodeViews.mp hv
    exact CodeView.conversion_errorBytes h hs hvs (hr.code_nested v hv) lines
  have honce : ∀ i ∈ src.contentOffsets,
      (allCodeViews src scanned).countP (fun v => v.faulty (ts.code v) i) ≤ 1 := fun i hi =>
    Nat.le_trans (List.countP_mono_left fun v _ hfaulty => (Bool.and_eq_true_iff.mp hfaulty).1)
      (countP_shows_le_one h hi)
  rw [hparts, heach, List.sum_map_add, sum_countP_eq honce]
  rfl

end Trees.Recorded

/-! ## Insertions that answer -/

/-- A node ends in a file of some size. -/
def EndsBy (size : Nat) (u : Tree) : Prop := (ofTree u).stop ≤ size

theorem endsBy_ofHead (size : Nat) : OfHead (EndsBy size) := fun _ _ hhead _ _ h => by
  rwa [EndsBy, ofTree_of_head hhead]

theorem endsBy_kept (w : Source) (cut : Span) (size : Nat) : Kept w cut (EndsBy size) := by
  intro x q _ hq hx
  obtain ⟨start, stop, hle, hpiece⟩ := mem_cutText hq
  exact Int.le_trans (piece?_spec hpiece).2.2.2 (Int.le_trans hle hx)

mutual

/-- **No text is cut beyond the source** in a tree whose texts end in it. -/
theorem overruns_eq_false (w : Source) (cut : Span) : ∀ {root : Tree},
    (∀ u ∈ preorderAll root.children, isTextLeaf u = true → EndsBy w.view.size u) →
      overruns w cut root = false
  | .node _ _ cs => by
    intro h
    have hbelow := overrunsBelow?_ne_true w cut h
    have hhere : cs.any (cutsOutside w cut) = false := by
      rw [List.any_eq_false]
      intro u hu hcuts
      unfold cutsOutside at hcuts
      dsimp only at hcuts
      rw [Bool.and_eq_true, Bool.and_eq_true, decide_eq_true_iff] at hcuts
      exact absurd (h u (Tree.mem_preorderAll_of_mem hu) hcuts.1.1) (Int.not_le.mpr hcuts.2)
    rw [overruns, hhere]
    cases hb : overrunsBelow? w cut cs with
    | none => rfl
    | some b => exact Bool.eq_false_iff.mpr fun hb' => hbelow (hb' ▸ hb)

theorem overrunsBelow?_ne_true (w : Source) (cut : Span) : ∀ {ts : List Tree},
    (∀ u ∈ preorderAll ts, isTextLeaf u = true → EndsBy w.view.size u) →
      overrunsBelow? w cut ts ≠ some true
  | [] => fun _ h => nomatch h
  | u :: rest => by
    intro h
    rw [Tree.preorderAll_cons, Tree.preorder_eq] at h
    have hself : overruns w cut u = false := overruns_eq_false w cut fun x hx => h x (by simp [hx])
    unfold overrunsBelow?
    split
    · rw [hself]
      exact nofun
    · exact overrunsBelow?_ne_true w cut fun x hx => h x (by simp [hx])

end

/-- **No insertion leaves the view** if every text ends inside it. -/
theorem insert?_eq {w : Source} {node root : Tree}
    (h : ∀ u ∈ preorderAll root.children, EndsBy w.view.size u) :
    ((insert? w node root).mapError fun _ => Analysis.Failure.outside) = .ok (insert w node root) := by
  rw [insert?, overruns_eq_false w _ fun u hu _ => h u hu]
  rfl

/-! ## The account of a merge -/

namespace Trees.Recorded

variable {ts : Trees}

/-- The code of a part ends in the file. -/
theorem endsBy_wrappedMembers (hr : ts.Recorded src scanned parse) (h : scan src = .ok scanned) (hs : s ∈ allSegments scanned)
    (hv : v ∈ codeViews src s) (lines : LineIndex) :
    ∀ u ∈ preorderAll (wrappedMembers v.wrapper (v.conversion lines (ts.code v)).root),
      EndsBy src.size u := by
  have hmem : v ∈ allCodeViews src scanned := mem_allCodeViews.mpr ⟨s, hs, hv⟩
  have hattached := attached_wrappedMembers h hs hv lines (hr.code_nested v hmem)
    (hr.code_stop v hmem)
  intro u hu
  have hstop := hattached.stop_le u hu
  -- behind the part there is a brace in the file as well
  have hbrace := (Array.getElem?_eq_some_iff.mp (codeView_brace h hs hv)).1
  have hclosing : v.closing.size ≤ 1 := by
    cases hw : v.wrapper with
    | none =>
      rw [CodeView.closing, hw]
      exact Nat.zero_le _
    | some w => exact Nat.le_of_eq (CodeView.closing_of_wrapper hw)
  rw [EndsBy]
  omega

/-- **The node of a construct**, with the weight of the errors in its code. -/
theorem segmentNode_eq (hr : ts.Recorded src scanned parse) (h : scan src = .ok scanned)
    (hs : s ∈ allSegments scanned) :
    ∃ node count, segmentNode parse src (LineIndex.ofSource src) s
        = .ok (node, count, ts.weightOf src (LineIndex.ofSource src) s)
      ∧ NodeOf s node ∧ ∀ u ∈ preorderAll node.children, EndsBy src.size u := by
  obtain ⟨parts, hparts, hall⟩ := exists_mapM (f := parseCode parse (LineIndex.ofSource src))
    (P := fun v p => (∀ u ∈ preorderAll p.1, EndsBy src.size u)
      ∧ p.2.2 = (v.conversion (LineIndex.ofSource src) (ts.code v)).errorBytes)
    (l := codeViews src s) fun v hv =>
      ⟨_, parseCode_eq (hr.code_eq v (mem_allCodeViews.mpr ⟨s, hs, hv⟩)) _,
        hr.endsBy_wrappedMembers h hs hv _, rfl⟩
  obtain ⟨hends, hweights⟩ := (List.forall₂_and_left _ _).mp hall.flip
  obtain ⟨node, count, bytes, hnode, hchildren, hbytes⟩ := segmentNode_of_parts hparts
  have hsum : bytes = ts.weightOf src (LineIndex.ofSource src) s := by
    rw [hbytes, Trees.weightOf]
    refine congrArg List.sum (List.forall₂_eq_eq_eq ▸ ?_)
    exact List.forall₂_map_left_iff.mpr (List.forall₂_map_right_iff.mpr hweights)
  refine ⟨node, count, hsum ▸ hnode, segmentNode_nodeOf parse src s _ hnode, ?_⟩
  rw [hchildren]
  refine forall_preorderAll_iff.mpr fun c hc => ?_
  obtain ⟨p, hp, hcp⟩ := List.mem_flatMap.mp hc
  exact forall_preorderAll_iff.mp (hends p hp) c hcp

/-- **Insertions answer**, and add the weights of the constructs up. -/
theorem insertSegments_eq (hr : ts.Recorded src scanned parse) (h : scan src = .ok scanned)
    {segments : List Segment}
    (hsub : segments ⊆ allSegments scanned) {root : Tree}
    (hroot : ∀ u ∈ preorderAll root.children, EndsBy src.size u) (count bytes : Nat) :
    ∃ root' count', insertSegments parse (sourceOf src scanned) segments (root, count, bytes)
      = .ok (root', count',
        bytes + (segments.map (ts.weightOf src (LineIndex.ofSource src))).sum) := by
  induction segments generalizing root count bytes with
  | nil => exact ⟨root, count, rfl⟩
  | cons s rest ih =>
    rw [List.cons_subset] at hsub
    obtain ⟨node, c, hnode, hof, hends⟩ := hr.segmentNode_eq h hsub.1
    have hbounds := (scan_scanned h).bounds (allSegments_eq scanned ▸ hsub.1)
    have hnonempty := (scan_nested h hsub.1).nonempty
    have hview : (sourceOf src scanned).view.size = src.size := size_blankRanges ..
    have hinsert : ((insert? (sourceOf src scanned) node root).mapError
        fun _ => Analysis.Failure.outside) = .ok (insert (sourceOf src scanned) node root) :=
      insert?_eq (hview.symm ▸ hroot)
    have hnext : ∀ u ∈ preorderAll (insert (sourceOf src scanned) node root).children,
        EndsBy src.size u := by
      have hspan := hof.span_eq
      refine forall_insert ?_ (endsBy_ofHead _) (endsBy_kept _ _ _) (fun w hw => ?_) hends hroot
      · rw [hspan]
        exact Int.ofNat_le.mpr hnonempty.le
      · rw [EndsBy, ofTree_of_head hw, hspan]
        exact Int.ofNat_le.mpr hbounds.2
    obtain ⟨root', count', hrest⟩ := ih hsub.2 hnext (count + c)
      (bytes + ts.weightOf src (LineIndex.ofSource src) s)
    refine ⟨root', count', ?_⟩
    rw [insertSegments]
    show (segmentNode parse src (LineIndex.ofSource src) s >>= _) = _
    rw [hnode]
    show ((insert? (sourceOf src scanned) node root).mapError _ >>= _) = _
    rw [hinsert]
    show insertSegments parse (sourceOf src scanned) rest _ = _
    rw [hrest, List.map_cons, List.sum_cons, Nat.add_assoc]

/-- The markup ends in the file. -/
theorem endsBy_markup (hr : ts.Recorded src scanned parse) : ∀ u ∈ preorderAll (markupTree src ts.markup).children, EndsBy src.size u := by
  rw [markupTree, spanning_children, Conversion.convert_children, ParseTree.namedChildren,
    Conversion.preorderAll_converted, ← ParseTree.keptBelow_eq, List.forall_mem_map]
  intro n hn
  rw [EndsBy, Conversion.ofTree_converted fun t => markup_unplaced t src]
  have hinside := ParseTree.keptBelow_inside hr.markup_nested n hn
  have hstop := hr.markup_stop
  show (n.head.stop : Int) + 0 ≤ src.size
  omega

/-- **The account of a merge.** If the trees that are recorded are nested and inside the texts
that were parsed, a merge answers. The weight of its errors and what no error covers are the
content of the source, and what is weighed twice or invented. -/
theorem merge_eq (hr : ts.Recorded src scanned parse) (h : scan src = .ok scanned) :
    ∃ root count bytes, merge parse src scanned = .ok (root, count, bytes)
      ∧ bytes + ts.untouched src scanned
        = src.contentLength + ts.twice src scanned + ts.invented src scanned := by
  obtain ⟨root, count, hrun⟩ := hr.insertSegments_eq h (fun _ hs => hs) hr.endsBy_markup
    (ts.markup.convert src Dialect.Markup.describe {} (some rootKind)).errorCount
    (ts.markup.convert src Dialect.Markup.describe {} (some rootKind)).errorBytes
  refine ⟨root, count, src.contentOffsets.countP ts.inMarkup
    + (src.contentOffsets.countP (ts.inCode src scanned) + ts.invented src scanned), ?_, ?_⟩
  · rw [merge, hr.markup_eq]
    refine hrun.trans ?_
    rw [ParseTree.convert_errorBytes hr.markup_nested, hr.sum_weightOf (scan_scanned h)]
    rfl
  · have hboth := countP_add_countP ts.inMarkup (ts.inCode src scanned) src.contentOffsets
    have hall := List.length_eq_countP_add_countP (fun i => ts.inMarkup i || ts.inCode src scanned i)
      (l := src.contentOffsets)
    rw [length_contentOffsets] at hall
    have huntouched : ts.untouched src scanned = src.contentOffsets.countP
        fun i => decide ¬(ts.inMarkup i || ts.inCode src scanned i) = true :=
      List.countP_congr fun i _ => by simp
    change _ = _ + ts.twice src scanned at hboth
    omega

end Trees.Recorded

/-- **The share of a template's errors** is one at most if and only if what no error covers makes
up for what is weighed twice or invented; and if it does, a tolerance of one takes the template.
The trees that are recorded have to be nested and inside the texts that were parsed. -/
theorem buildTemplate_share (h : scan src = .ok scanned) {ts : Trees}
    (hr : ts.Recorded src scanned parse) :
    ∃ root count bytes, merge parse src scanned = .ok (root, count, bytes)
      ∧ bytes + ts.untouched src scanned
        = src.contentLength + ts.twice src scanned + ts.invented src scanned
      ∧ (bytes ≤ src.contentLength
        ↔ ts.twice src scanned + ts.invented src scanned ≤ ts.untouched src scanned)
      ∧ (ts.twice src scanned + ts.invented src scanned ≤ ts.untouched src scanned →
        ∀ tolerance path, tolerance.place = .ofInt 1 →
          ∃ share, Analysis.buildTemplate parse tolerance path src
            = .ok ⟨root, count, share⟩) := by
  obtain ⟨root, count, bytes, hmerge, haccount⟩ := hr.merge_eq h
  refine ⟨root, count, bytes, hmerge, haccount, by omega, fun hle tolerance path htolerance => ?_⟩
  have hcontent : bytes ≤ src.contentLength := by omega
  obtain ⟨share, hjudge⟩ := Analysis.judge_of_le htolerance hcontent path "template" root count
  refine ⟨share, ?_⟩
  unfold Analysis.buildTemplate Analysis.scanTemplate
  rw [h]
  show (merge parse src scanned >>= _) = _
  rw [hmerge]
  exact hjudge

/-- A block in a tag that is left open: `<p @{1+}`. -/
def tagSource : Bytes := #[0x3C, 0x70, 0x20, 0x40, 0x7B, 0x31, 0x2B, 0x7D]

/-- An error between two offsets. -/
def errorNode (start stop : Nat) : ParseTree :=
  .node ⟨"ERROR", true, false, true, start, stop, default, default, []⟩ []

/-- The markup of the tag with an error that ends at some offset. -/
def tagTree (stop : Nat) : ParseTree := namedNode "document" 0 8 [errorNode 0 stop]

/-- The code of the block cannot be read. -/
def operandTree : ParseTree := namedNode "compilation_unit" 0 2 [errorNode 0 2]

/-- The trees of the template, with an error of the markup that ends in front of the block. -/
def tagTrees : Trees := ⟨tagTree 2, fun _ => operandTree⟩

/-- If the error of the markup ends in front of the block, the template is taken. -/
theorem buildTemplate_share_tag : ∃ scanned, scan tagSource = .ok scanned
    ∧ tagTrees.Recorded tagSource scanned (recordedParse (tagTree 2) operandTree)
    ∧ tagTrees.twice tagSource scanned + tagTrees.invented tagSource scanned
      ≤ tagTrees.untouched tagSource scanned
    ∧ ∃ root count bytes share,
      merge (recordedParse (tagTree 2) operandTree) tagSource scanned = .ok (root, count, bytes)
      ∧ bytes ≤ tagSource.contentLength
      ∧ Analysis.buildTemplate (recordedParse (tagTree 2) operandTree) (.int 1) "tag" tagSource
        = .ok ⟨root, count, share⟩ := by
  have hrecorded : (scan tagSource).toOption.any (fun scanned =>
      ((allCodeViews tagSource scanned).all fun v => operandTree.head.stop ≤ v.text.size)
        && decide (tagTrees.twice tagSource scanned + tagTrees.invented tagSource scanned
          ≤ tagTrees.untouched tagSource scanned)) = true := by
    decide +kernel
  obtain ⟨scanned, hscan, hchecked⟩ := Answers.exists_of_any hrecorded
  rw [Bool.and_eq_true, List.all_eq_true, decide_eq_true_iff] at hchecked
  obtain ⟨hstop, hle⟩ := hchecked
  have hr : tagTrees.Recorded tagSource scanned (recordedParse (tagTree 2) operandTree) :=
    { markup_eq := rfl
      code_eq := fun _ _ => rfl
      markup_nested := by decide
      markup_stop := by decide
      code_nested := fun _ _ => (by decide : operandTree.nested = true)
      code_stop := fun v hv => decide_eq_true_iff.mp (hstop v hv) }
  obtain ⟨root, count, bytes, hmerge, -, hiff, htaken⟩ := buildTemplate_share hscan hr
  obtain ⟨share, hbuilt⟩ := htaken hle (.int 1) "tag" rfl
  exact ⟨scanned, hscan, hr, hle, root, count, bytes, share, hmerge, hiff.mpr hle, hbuilt⟩

/-- **A share can be above one**, and then a tolerance of one rejects the template. An error of the
markup covers the block as well, and an error of the members covers more of the wrapper than there
is in the file. -/
theorem buildTemplate_share_above :
    ((tagTree 8).nested = true ∧ operandTree.nested = true
      ∧ (Analysis.buildTemplate (recordedParse (tagTree 8) operandTree) (.int 1) "tag"
        tagSource).map (fun _ => ()) = .error (.unparsable "tag"
          (.tooManyErrors 2 (Binary64.ofRatio false 9 7) "template")))
      ∧ emptyTree.nested = true
      ∧ (Analysis.buildTemplate (recordedParse (namedNode "document" 0 0 []) emptyTree) (.int 1)
        "block" emptySource).map (fun _ => ()) = .error (.unparsable "block"
          (.tooManyErrors 1 (Binary64.ofRatio false 18 7) "template")) := by
  decide +kernel

end Template

end SyntaxForest
