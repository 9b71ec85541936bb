import SyntaxForest.Analysis.Analyzer
import SyntaxForest.Proofs.Template.Recorded
import SyntaxForest.Proofs.Template.Views

/-!
# A merge as a fold of insertions

The tree of a template is the tree of its markup with the node of each construct
inserted, in the pre-order of the scan (`insertAll`). `Merges` names what such a run
goes through, the tree of the markup and the nodes of the constructs. The nodes have
the spans of their constructs, which begin one behind the other, and if the recorded
trees are nested, then all siblings are in order.
-/

namespace SyntaxForest.Template

open SyntaxForest.Template.Span (ofTree)
open SyntaxForest.Tree (preorderAll Everywhere)
open Segment

variable {parse : Parse} {src : Bytes} {scanned : List Segment} {lines : LineIndex}

/-! ## The nodes of constructs -/

/-- The trees of one part of the code: in order, and inside the part. -/
def PartTrees (v : CodeView) (trees : List Tree) : Prop :=
  trees.Pairwise Precedes ∧ (∀ u ∈ trees, Spanned u)
    ∧ ∀ u ∈ trees, v.part.start ≤ (ofTree u).start ∧ (ofTree u).stop ≤ v.part.stop

/-- What is inside a wrapper are the children of one node. -/
theorem wrappedMembers_eq (wrapper : Option Wrapper) (root : Tree) :
    ∃ u ∈ root.preorder, wrappedMembers wrapper root = u.children := by
  have hself : root ∈ root.preorder := root.mem_preorder_self
  unfold wrappedMembers
  split
  · exact ⟨root, hself, rfl⟩
  · next w =>
    split
    · next body hbody =>
      obtain ⟨outer, houter, hfirst⟩ := Option.bind_eq_some_iff.mp hbody
      have hmem : outer ∈ root.preorder := Tree.walk_eq root ▸ List.mem_of_find?_eq_some houter
      refine ⟨body, Tree.mem_preorder_trans hmem (Tree.mem_preorder_of_below ?_), rfl⟩
      exact Tree.mem_preorderAll_of_mem (List.mem_of_find?_eq_some hfirst)
    · exact ⟨root, hself, rfl⟩

/-- **The trees of a part of the code** are spanned and stand in order inside it. -/
theorem parseCode_partTrees {s : Segment} (h : RecordedNested parse src scanned)
    (hs : s ∈ allSegments scanned) {v : CodeView} (hv : v ∈ codeViews src s) :
    Answers (parseCode parse (LineIndex.ofSource src) v) fun r => PartTrees v r.1 := by
  intro r hr
  obtain ⟨trees, count, bytes⟩ := r
  have hinside := h.inside s hs v hv trees count bytes hr
  suffices hspanned : trees.Pairwise Precedes ∧ ∀ u ∈ trees, Spanned u from
    ⟨hspanned.1, hspanned.2, hinside⟩
  refine Answers.bind (x := parse codeGrammar v.text) (p := fun t => t.nested = true)
    (r := fun r => r.1.Pairwise Precedes ∧ ∀ u ∈ r.1, Spanned u)
    (fun t ht => h.code s hs v hv t ht) (fun t ht => ?_) (trees, count, bytes) hr
  have hroot : Spanned (t.convert v.text Dialect.CSharp.describe
      (v.shift (LineIndex.ofSource src)) (some codeRootKind)).root :=
    ParseTree.convert_spanned (fun t => csharp_unplaced t v.text) ht
  obtain ⟨u, hu, hmembers⟩ := wrappedMembers_eq v.wrapper (t.convert v.text
    Dialect.CSharp.describe (v.shift (LineIndex.ofSource src)) (some codeRootKind)).root
  refine .pure ?_
  dsimp only
  rw [hmembers]
  have huspan := hroot.of_mem hu
  refine ⟨(Tree.everywhere_iff.mp huspan.precedes).1, fun c hc => huspan.of_mem ?_⟩
  exact Tree.mem_preorder_of_below (Tree.mem_preorderAll_of_mem hc)

/-- The trees of several parts that stand in order. -/
theorem flatMap_precedes {views : List CodeView} {results : List (List Tree × Nat × Nat)}
    (h : List.Forall₂ (fun v r => PartTrees v r.1) views results)
    (hviews : (views.map CodeView.part).Pairwise Range.Before) :
    (results.flatMap (·.1)).Pairwise Precedes ∧ (∀ u ∈ results.flatMap (·.1), Spanned u)
      ∧ ∀ u ∈ results.flatMap (·.1), ∃ v ∈ views,
        v.part.start ≤ (ofTree u).start ∧ (ofTree u).stop ≤ v.part.stop := by
  induction h with
  | nil => exact ⟨.nil, fun _ hu => (nomatch hu), fun _ hu => (nomatch hu)⟩
  | @cons v r views results hr _ ih =>
    rw [List.map_cons, List.pairwise_cons] at hviews
    obtain ⟨hpair, hspanned, hlow⟩ := ih hviews.2
    obtain ⟨hown, hownSpanned, hinside⟩ := hr
    rw [List.flatMap_cons]
    refine ⟨List.pairwise_append.mpr ⟨hown, hpair, fun a ha b hb => ?_⟩, fun u hu => ?_,
      fun u hu => ?_⟩
    · obtain ⟨w, hw, hle, -⟩ := hlow b hb
      have hbefore : v.part.stop ≤ w.part.start := hviews.1 _ (List.mem_map_of_mem hw)
      have hstop := (hinside a ha).2
      exact ⟨(hownSpanned a ha).le a a.mem_preorder_self, by omega⟩
    · exact (List.mem_append.mp hu).elim (hownSpanned u) (hspanned u)
    · rcases List.mem_append.mp hu with hu | hu
      · exact ⟨v, List.mem_cons_self .., hinside u hu⟩
      · obtain ⟨w, hw, hle⟩ := hlow u hu
        exact ⟨w, List.mem_cons_of_mem _ hw, hle⟩

/-- **The node of a construct** shows what the construct is and where it stands. -/
structure NodeOf (s : Segment) (t : Tree) : Prop where
  kind_eq : t.kind = s.construct.kind
  span_eq : ofTree t = ⟨s.start, s.stop⟩

theorem ofTree_segment (lines : LineIndex) (s : Segment) (cs : List Tree) :
    ofTree (.node s.construct.kind ((s.construct.properties.map
      fun (k, v) => (k, v.map Scalar.text)).foldl (fun props (k, v) => Properties.set? props k v)
        (spanProperties lines ⟨s.start, s.stop⟩)) cs) = ⟨s.start, s.stop⟩ := by
  rw [s.construct.properties_unplaced.ofTree_foldl, ← List.append_nil (spanProperties _ _),
    ofTree_spanProperties]

/-- **The node of a construct** has its span and its kind. -/
theorem segmentNode_nodeOf (parse : Parse) (src : Bytes) (s : Segment) :
    Answers (segmentNode parse src (LineIndex.ofSource src) s) fun r => NodeOf s r.1 :=
  .bind .self fun _ _ => .pure ⟨rfl, ofTree_segment ..⟩

/-- The code of a construct is in order below its node. -/
theorem segmentNode_spanned {s : Segment} (h : RecordedNested parse src scanned)
    (hs : s ∈ allSegments scanned) (hnested : s.Nested) :
    Answers (segmentNode parse src (LineIndex.ofSource src) s) fun r => Spanned r.1 := by
  have hparts : Answers ((codeViews src s).mapM (parseCode parse (LineIndex.ofSource src)))
      (List.Forall₂ (fun v r => PartTrees v r.1) (codeViews src s)) :=
    .mapM fun v hv => parseCode_partTrees h hs hv
  refine .bind hparts fun results hresults => .pure ?_
  have hordered := flatMap_precedes hresults <| by
    rw [codeViews_part]
    exact hnested.parts_chain.pairwise.sublist s.codeParts_sublist
  refine .node hordered.1 hordered.2.1 (fun c hc => ?_) ?_
  · obtain ⟨v, hv, hlow, hhigh⟩ := hordered.2.2 c hc
    have hpart := hnested.parts_chain.of_mem
      (s.codeParts_sublist.subset (codeViews_part src s ▸ List.mem_map_of_mem hv))
    rw [ofTree_segment, Span.contains_iff]
    dsimp only
    omega
  · rw [ofTree_segment]
    exact Int.ofNat_le.mpr (Nat.le_of_lt hnested.nonempty)

/-! ## The run of a merge -/

/-- The text of a template, as insertions see it. -/
def sourceOf (src : Bytes) (scanned : List Segment) : Source :=
  ⟨src, markupView src scanned, LineIndex.ofSource src⟩

/-- The tree of the markup, spanning the whole file. -/
def markupTree (src : Bytes) (t : ParseTree) : Tree :=
  spanning (LineIndex.ofSource src) src.size
    (t.convert src Dialect.Markup.describe {} (some rootKind)).root

theorem spanning_children (lines : LineIndex) (size : Nat) (t : Tree) :
    (spanning lines size t).children = t.children := by
  cases t
  rfl

/-- **Nodes inserted one after another.** -/
def insertAll (s : Source) (root : Tree) (nodes : List Tree) : Tree :=
  nodes.foldl (fun root t => insert s t root) root

/-- **A property of nodes after a run of insertions.** -/
theorem forall_insertAll {s : Source} {p : Tree → Prop} {root : Tree} {nodes : List Tree}
    (hp : OfHead p) (hnodes : ∀ t ∈ nodes, (ofTree t).start ≤ (ofTree t).stop
      ∧ Kept s (ofTree t) p ∧ (∀ w : Tree, w.head = t.head → p w)
      ∧ ∀ x ∈ preorderAll t.children, p x)
    (hroot : ∀ x ∈ preorderAll root.children, p x) :
    ∀ x ∈ preorderAll (insertAll s root nodes).children, p x := by
  induction nodes generalizing root with
  | nil => exact hroot
  | cons t rest ih =>
    rw [List.forall_mem_cons] at hnodes
    obtain ⟨⟨hcut, hkept, hself, hown⟩, hrest⟩ := hnodes
    exact ih hrest (forall_insert hcut hp hkept hself hown hroot)

/-- Insertions leave the root itself as it is. -/
theorem insertAll_head (s : Source) (root : Tree) (nodes : List Tree) :
    (insertAll s root nodes).head = root.head := by
  induction nodes generalizing root with
  | nil => rfl
  | cons t rest ih => exact (ih _).trans (insert_atHome s t root).head_eq

/-- The recorded trees of a merge: those of the markup, and those of the code of each
construct. -/
def recordedTrees (markup : Tree) (nodes : List Tree) : List Tree :=
  markup.children ++ nodes.flatMap Tree.children

/-- A node is recorded in the markup or in the code of a construct. -/
theorem mem_recordedTrees {markup v : Tree} {nodes : List Tree} :
    v ∈ preorderAll (recordedTrees markup nodes)
      ↔ v ∈ preorderAll markup.children ∨ ∃ t ∈ nodes, v ∈ preorderAll t.children := by
  rw [recordedTrees, Tree.preorderAll_append, List.mem_append, Tree.mem_preorderAll_flatMap]

theorem recordedTrees_mono {markup : Tree} {before nodes : List Tree} (h : before ⊆ nodes) :
    preorderAll (recordedTrees markup before) ⊆ preorderAll (recordedTrees markup nodes) := by
  intro v hv
  rw [mem_recordedTrees] at hv ⊢
  exact hv.imp_right fun ⟨t, ht, hvt⟩ => ⟨t, h ht, hvt⟩

/-- **A run of the merge**: from the tree of the markup, over the nodes of the
constructs, to the tree of the template. -/
structure Merges (parse : Parse) (src : Bytes) (scanned : List Segment) (markup : Tree)
    (nodes : List Tree) (root : Tree) : Prop where
  markup_eq : ∃ t, parse markupGrammar (markupView src scanned) = .ok t
    ∧ markup = markupTree src t
  nodes_eq : List.Forall₂ (fun s t => ∃ count bytes,
    segmentNode parse src (LineIndex.ofSource src) s = .ok (t, count, bytes))
    (allSegments scanned) nodes
  root_eq : root = insertAll (sourceOf src scanned) markup nodes

/-- An insertion that succeeds is the insertion. -/
theorem insert?_insert {s : Source} {t root : Tree} :
    Answers ((insert? s t root).mapError fun _ => Analysis.Failure.outside)
      fun r => r = insert s t root := by
  unfold insert?
  split
  · exact .error
  · exact .ok rfl

/-- **The constructs are inserted one after another**, each as its own node. -/
theorem insertSegments_run (parse : Parse) (s : Source) (segments : List Segment)
    (acc : Tree × Nat × Nat) :
    Answers (insertSegments parse s segments acc) fun r => ∃ nodes,
      List.Forall₂ (fun u t => ∃ count bytes,
        segmentNode parse s.bytes s.lines u = .ok (t, count, bytes)) segments nodes
      ∧ r.1 = insertAll s acc.1 nodes := by
  induction segments generalizing acc with
  | nil => exact .ok ⟨[], .nil, rfl⟩
  | cons segment rest ih =>
    obtain ⟨root, count, bytes⟩ := acc
    refine .bind .self fun node hnode => ?_
    obtain ⟨node, c, b⟩ := node
    refine .bind insert?_insert fun root' hroot => ?_
    subst hroot
    refine (ih _).mono ?_
    rintro r ⟨nodes, hnodes, hr⟩
    exact ⟨node :: nodes, .cons ⟨c, b, hnode⟩ hnodes, hr⟩

/-- **A merge that succeeds** puts the nodes of all constructs into the markup. -/
theorem merge_merges :
    Answers (merge parse src scanned) fun r => ∃ markup nodes,
      Merges parse src scanned markup nodes r.1 := by
  refine .bind .self fun t ht => ?_
  refine (insertSegments_run parse _ _ _).mono ?_
  rintro r ⟨nodes, hnodes, hr⟩
  exact ⟨markupTree src t, nodes, ⟨t, ht, rfl⟩, hnodes, hr⟩

/-- **A built template** comes of a scan and a merge. -/
theorem buildTemplate_merges {tolerance : Tolerance} {path : String} :
    Answers (Analysis.buildTemplate parse tolerance path src) fun built =>
      ∃ scanned markup nodes, scan src = .ok scanned
        ∧ Merges parse src scanned markup nodes built.root := by
  have hscan : Answers (Analysis.scanTemplate path src) fun scanned => scan src = .ok scanned := by
    unfold Analysis.scanTemplate
    cases scan src with
    | error e => exact .error
    | ok scanned => exact .ok rfl
  refine .bind hscan fun scanned hscanned => ?_
  refine .bind merge_merges fun r hr => ?_
  obtain ⟨root, count, bytes⟩ := r
  obtain ⟨markup, nodes, hrun⟩ := hr
  refine Answers.mono (p := fun built => built.root = root) ?_ fun built hbuilt =>
    ⟨scanned, markup, nodes, hscanned, hbuilt ▸ hrun⟩
  dsimp only
  unfold Analysis.judge
  dsimp only
  split_ifs
  all_goals first
    | exact .ok rfl
    | exact .error

/-! ## What is merged -/

/-- The nodes begin as their constructs do. -/
theorem starts_increase_of {segments : List Segment} {nodes : List Tree}
    (h : List.Forall₂ NodeOf segments nodes) (hs : segments.Pairwise (·.start < ·.start)) :
    nodes.Pairwise fun a b => (ofTree a).start < (ofTree b).start := by
  induction h with
  | nil => exact .nil
  | @cons s t segments nodes hst hrest ih =>
    rw [List.pairwise_cons] at hs
    refine .cons (fun u hu => ?_) (ih hs.2)
    obtain ⟨i, hi, rfl⟩ := List.mem_iff_getElem.mp hu
    have hlen : i < segments.length := hrest.length_eq ▸ hi
    have hnode := List.Forall₂.get hrest hlen hi
    rw [List.get_eq_getElem, List.get_eq_getElem] at hnode
    rw [hst.span_eq, hnode.span_eq]
    exact Int.ofNat_lt.mpr (hs.1 _ (List.getElem_mem hlen))

/-- What stands at the same place of two lists. -/
theorem getElem_mem_zip {α β : Type} {as : List α} {bs : List β} {i : Nat} (ha : i < as.length)
    (hb : i < bs.length) : (as[i], bs[i]) ∈ as.zip bs := by
  have hi : i < (as.zip bs).length := by
    rw [List.length_zip]
    exact Nat.lt_min.mpr ⟨ha, hb⟩
  have hmem := List.getElem_mem hi
  rwa [List.getElem_zip] at hmem

namespace Merges

variable {markup root t : Tree} {nodes : List Tree}

theorem nodes_of (h : Merges parse src scanned markup nodes root) :
    List.Forall₂ NodeOf (allSegments scanned) nodes := by
  refine h.nodes_eq.imp ?_
  rintro s t ⟨count, bytes, hst⟩
  exact segmentNode_nodeOf parse src s _ hst

/-- **The nodes begin one behind the other.** -/
theorem starts_increase (h : Merges parse src scanned markup nodes root)
    (hscan : scan src = .ok scanned) :
    nodes.Pairwise fun a b => (ofTree a).start < (ofTree b).start := by
  refine starts_increase_of h.nodes_of ?_
  rw [allSegments_eq]
  exact (scan_scanned hscan).starts_increase

/-- Each node is that of a construct. -/
theorem exists_zip (h : Merges parse src scanned markup nodes root) (ht : t ∈ nodes) :
    ∃ s, (s, t) ∈ (allSegments scanned).zip nodes := by
  obtain ⟨i, hi, rfl⟩ := List.mem_iff_getElem.mp ht
  have hlen : i < (allSegments scanned).length := h.nodes_eq.length_eq ▸ hi
  exact ⟨_, getElem_mem_zip hlen hi⟩

/-- Each construct has a node. -/
theorem exists_zip_of_segment {s : Segment} (h : Merges parse src scanned markup nodes root)
    (hs : s ∈ allSegments scanned) : ∃ t, (s, t) ∈ (allSegments scanned).zip nodes := by
  obtain ⟨i, hi, rfl⟩ := List.mem_iff_getElem.mp hs
  have hlen : i < nodes.length := h.nodes_eq.length_eq ▸ hi
  exact ⟨_, getElem_mem_zip hi hlen⟩

theorem exists_segmentNode (h : Merges parse src scanned markup nodes root) (ht : t ∈ nodes) :
    ∃ s ∈ allSegments scanned, ∃ count bytes,
      segmentNode parse src (LineIndex.ofSource src) s = .ok (t, count, bytes) := by
  obtain ⟨s, hst⟩ := h.exists_zip ht
  exact ⟨s, (List.of_mem_zip hst).1, (List.forall₂_iff_zip.mp h.nodes_eq).2 hst⟩

/-- Each inserted node is that of a construct. -/
theorem exists_segment (h : Merges parse src scanned markup nodes root) (ht : t ∈ nodes) :
    ∃ s ∈ allSegments scanned, NodeOf s t := by
  obtain ⟨s, hs, count, bytes, hst⟩ := h.exists_segmentNode ht
  exact ⟨s, hs, segmentNode_nodeOf parse src s _ hst⟩

/-- The nodes of constructs are no text, and not empty. -/
theorem node (h : Merges parse src scanned markup nodes root) (hscan : scan src = .ok scanned) :
    ∀ t ∈ nodes, 0 ≤ (ofTree t).start ∧ (ofTree t).start < (ofTree t).stop ∧ t.kind ≠ "Text" := by
  intro t ht
  obtain ⟨s, hs, hst⟩ := h.exists_segment ht
  have hne := (scan_nested hscan hs).nonempty
  rw [hst.span_eq, hst.kind_eq]
  exact ⟨Int.natCast_nonneg _, Int.ofNat_lt.mpr hne, s.construct.kind_ne_text⟩

/-- The spans below the node of a construct are in order. -/
theorem node_spanned (h : Merges parse src scanned markup nodes root)
    (hscan : scan src = .ok scanned) (hrec : RecordedNested parse src scanned) (ht : t ∈ nodes) :
    Spanned t := by
  obtain ⟨s, hs, count, bytes, hnode⟩ := h.exists_segmentNode ht
  exact segmentNode_spanned hrec hs (scan_nested hscan hs) _ hnode

/-- The spans of the markup are in order below its root. -/
theorem markup_spanned (h : Merges parse src scanned markup nodes root)
    (hrec : RecordedNested parse src scanned) :
    ∃ t, Spanned t ∧ markup.children = t.children := by
  obtain ⟨t, ht, rfl⟩ := h.markup_eq
  exact ⟨_, ParseTree.convert_spanned (fun t => markup_unplaced t src) (hrec.markup t ht),
    spanning_children ..⟩

/-- **The siblings of nested recorded trees stand in order** in what is merged. -/
theorem precedes (h : Merges parse src scanned markup nodes root)
    (hscan : scan src = .ok scanned) (hrec : RecordedNested parse src scanned) :
    markup.Everywhere Precedes ∧ ∀ t ∈ nodes, t.Everywhere Precedes := by
  constructor
  · obtain ⟨t, ht, hchildren⟩ := h.markup_spanned hrec
    rw [Tree.everywhere_iff, hchildren, ← Tree.everywhere_iff]
    exact ht.precedes
  · exact fun t ht => (h.node_spanned hscan hrec ht).precedes

end Merges

/-! ## Recorded trees that can be checked -/

/-- **The recorded trees of a template**, read before anything is inserted. -/
def recordedOf (parse : Parse) (src : Bytes) (scanned : List Segment) :
    Except Analysis.Failure (List Tree) := do
  let t ← parse markupGrammar (markupView src scanned)
  let nodes ← (allSegments scanned).mapM (segmentNode parse src (LineIndex.ofSource src))
  return recordedTrees (markupTree src t) (nodes.map (·.1))

theorem mapM_of_forall₂ {α β γ ε : Type} {f : α → Except ε (β × γ)} {l : List α} {bs : List β}
    (h : List.Forall₂ (fun a b => ∃ c, f a = .ok (b, c)) l bs) :
    ∃ rs, l.mapM f = .ok rs ∧ rs.map (·.1) = bs := by
  induction h with
  | nil => exact ⟨[], rfl, rfl⟩
  | @cons a b l bs hab _ ih =>
    obtain ⟨c, hc⟩ := hab
    obtain ⟨rs, hrs, rfl⟩ := ih
    refine ⟨(b, c) :: rs, ?_, rfl⟩
    rw [List.mapM_cons, hc, hrs]
    rfl

/-- **What a merge goes through**, read before anything is inserted. -/
def inputsOf (parse : Parse) (src : Bytes) (scanned : List Segment) :
    Except Analysis.Failure (Tree × List Tree) := do
  let t ← parse markupGrammar (markupView src scanned)
  let nodes ← (allSegments scanned).mapM (segmentNode parse src (LineIndex.ofSource src))
  return (markupTree src t, nodes.map (·.1))

/-- The parts of a merge are told by its inputs. -/
theorem Merges.inputsOf_eq {markup root : Tree} {nodes : List Tree}
    (h : Merges parse src scanned markup nodes root) :
    inputsOf parse src scanned = .ok (markup, nodes) := by
  obtain ⟨t, ht, rfl⟩ := h.markup_eq
  obtain ⟨rs, hrs, rfl⟩ := mapM_of_forall₂ <| h.nodes_eq.imp fun _ _ ⟨count, bytes, hst⟩ =>
    ⟨(count, bytes), hst⟩
  rw [inputsOf, ht, hrs]
  rfl

/-- The recorded trees are those of the inputs. -/
theorem recordedOf_eq_map (parse : Parse) (src : Bytes) (scanned : List Segment) :
    recordedOf parse src scanned
      = (inputsOf parse src scanned).map fun (markup, nodes) => recordedTrees markup nodes := by
  unfold recordedOf inputsOf
  cases parse markupGrammar (markupView src scanned) with
  | error e => rfl
  | ok t =>
    dsimp only [bind, Except.bind]
    cases (allSegments scanned).mapM (segmentNode parse src (LineIndex.ofSource src)) <;> rfl

/-- The recorded trees of a merge are told by its inputs. -/
theorem Merges.recordedOf_eq {markup root : Tree} {nodes : List Tree}
    (h : Merges parse src scanned markup nodes root) :
    recordedOf parse src scanned = .ok (recordedTrees markup nodes) := by
  rw [recordedOf_eq_map, h.inputsOf_eq]
  rfl

/-- Whether a text is tight in its view: not empty, without blanks at its ends, and
without the marks `<`, `>` and `&`. -/
def isTight (view : Bytes) (span : Span) : Bool :=
  let text := (view.slice span.start.toNat span.stop.toNat).toList
  0 ≤ span.start && span.stop ≤ view.size && !text.isEmpty
    && !text.head?.any Bytes.isBlank && !text.getLast?.any Bytes.isBlank
    && text.all fun b => b != 0x3C && b != 0x3E && b != 0x26

/-- **Whether recorded trees are well formed**: nested, the code inside its part, and
the texts of the markup tight. -/
def wellFormed (parse : Parse) (src : Bytes) (scanned : List Segment) : Bool :=
  let view := markupView src scanned
  (parse markupGrammar view).toOption.all (fun t => t.nested
      && (markupTree src t).preorder.all fun u => !isTextLeaf u || isTight view (ofTree u))
    && (allSegments scanned).all fun s => (codeViews src s).all fun v =>
      (parse codeGrammar v.text).toOption.all ParseTree.nested
        && (parseCode parse (LineIndex.ofSource src) v).toOption.all fun r =>
          r.1.all fun u => v.part.start ≤ (ofTree u).start && (ofTree u).stop ≤ v.part.stop

/-- Well-formed parse trees are recorded as nested ones. -/
theorem recordedNested_of_wellFormed (h : wellFormed parse src scanned = true) :
    RecordedNested parse src scanned := by
  unfold wellFormed at h
  dsimp only at h
  rw [Bool.and_eq_true, List.all_eq_true] at h
  obtain ⟨hmarkup, hcode⟩ := h
  have hview : ∀ s ∈ allSegments scanned, ∀ v ∈ codeViews src s, _ ∧ _ := fun s hs v hv =>
    Bool.and_eq_true_iff.mp (List.all_eq_true.mp (hcode s hs) v hv)
  refine ⟨fun t ht => ?_, fun s hs v hv => Answers.of_all (hview s hs v hv).1,
    fun s hs v hv trees count bytes hr u hu => ?_⟩
  · exact (Bool.and_eq_true_iff.mp (Answers.of_all hmarkup t ht)).1
  · have hall := List.all_eq_true.mp (Answers.of_all (hview s hs v hv).2 _ hr) u hu
    rwa [Bool.and_eq_true, decide_eq_true_iff, decide_eq_true_iff] at hall

/-- A named node of a recorded tree, without its points and fields. -/
def namedNode (kind : String) (start stop : Nat) (children : List ParseTree) : ParseTree :=
  .node ⟨kind, true, false, false, start, stop, default, default, []⟩ children

/-- Parsers that have recorded one tree of markup and one of code. -/
def recordedParse (markup code : ParseTree) : Parse := fun grammar _ =>
  .ok (if grammar = markupGrammar then markup else code)

end SyntaxForest.Template
