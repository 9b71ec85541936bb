import SyntaxForest.Proofs.Template.Braces
import SyntaxForest.Proofs.Template.Merge
import SyntaxForest.Proofs.Template.Points

/-!
# Positions of the merged tree

Lines and columns come into a template's tree in three ways: the markup brings the points of
its view, code brings those of its own text, and the nodes of constructs and the pieces of cut
text ask the line index. All of them agree (`buildTemplate_positioned`).

The views keep the newlines of the stretch that they stand for, so `LinesOf` holds of each of
them. The one byte that a view has beyond its part is the brace that closes a wrapper, and it
stands where the file has a brace as well (`codeView_linesOf`). An insertion adds the node of a
construct and pieces of text, and leaves the properties of all other nodes alone.
-/

namespace SyntaxForest.Template

open SyntaxForest.Template.Span (ofTree)
open SyntaxForest.Tree (preorderAll)
open Segment

variable {parse : Parse} {src : Bytes} {scanned : List Segment} {lines : LineIndex}

/-! ## Positions that agree with the span -/

/-- **A node has the positions of its span**: its lines and columns are those at which the
line index finds the ends of its span. -/
structure Positioned (lines : LineIndex) (t : Tree) : Prop where
  start_eq : t.get? "span_start" = some (.int (ofTree t).start)
  length_eq : t.get? "span_length" = some (.int ((ofTree t).stop - (ofTree t).start))
  startLine : t.get? "start_line" = some (.int (lines.position (ofTree t).start).1)
  startColumn : t.get? "start_column" = some (.int (lines.position (ofTree t).start).2)
  endLine : t.get? "end_line" = some (.int (lines.position (ofTree t).stop).1)
  endColumn : t.get? "end_column" = some (.int (lines.position (ofTree t).stop).2)

theorem positioned_spanProperties (lines : LineIndex) (span : Span) (kind : String)
    (more : List (String × Scalar)) (children : List Tree) :
    Positioned lines (.node kind (spanProperties lines span ++ more) children) := by
  constructor
  all_goals rw [ofTree_spanProperties]; rfl

/-- Positions are read off the six properties that place a node. -/
theorem Positioned.congr {t u : Tree} (h : Positioned lines t)
    (heq : ∀ key, isPositionKey key = true → u.get? key = t.get? key) : Positioned lines u := by
  have hspan : ofTree u = ofTree t := ofTree_congr (heq _ rfl) (heq _ rfl)
  constructor
  all_goals rw [heq _ rfl, hspan]
  exacts [h.start_eq, h.length_eq, h.startLine, h.startColumn, h.endLine, h.endColumn]

/-- A node with the properties of a span stands where they say. -/
theorem Positioned.of_spanProperties (span : Span) {t : Tree} (h : ∀ key,
    isPositionKey key = true → t.get? key = Properties.get? (spanProperties lines span) key) :
    Positioned lines t :=
  (positioned_spanProperties lines span "" [] []).congr h

theorem Positioned.of_head {t u : Tree} (h : Positioned lines t) (hhead : u.head = t.head) :
    Positioned lines u := by
  have hprops : u.properties = t.properties := congrArg Prod.snd hhead
  exact h.congr fun key _ => by rw [Tree.get?, hprops, ← Tree.get?]

theorem positioned_ofHead : OfHead (Positioned lines) := fun _ _ hhead _ _ h => h.of_head hhead

/-! ## Text and constructs -/

/-- A piece of a text is placed anew. -/
theorem piece?_positioned {s : Source} {start stop : Int} {q : Tree}
    (h : piece? s start stop = some q) : Positioned s.lines q := by
  unfold piece? at h
  dsimp only at h
  split at h
  · obtain rfl := Option.some.inj h
    exact positioned_spanProperties ..
  · cases h

/-- **What is cut from a text has the positions of its span.** -/
theorem positioned_kept {s : Source} (cut : Span) : Kept s cut (Positioned s.lines) := by
  intro x q _ hq _
  obtain ⟨start, stop, -, hpiece⟩ := mem_cutText hq
  exact piece?_positioned hpiece

theorem spanProperties_keys (lines : LineIndex) (span : Span) :
    ((spanProperties lines span).map Prod.fst).Nodup := by
  show ["span_start", "span_length", "start_line", "start_column", "end_line", "end_column"].Nodup
  decide

theorem spanProperties_lookup {span : Span} {key : String} (h : isPositionKey key = true) :
    ((spanProperties lines span).lookup key).isSome = true := by
  rw [isPositionKey, List.contains_iff_mem] at h
  simp only [List.mem_cons, List.not_mem_nil, or_false] at h
  rcases h with rfl | rfl | rfl | rfl | rfl | rfl <;> rfl

/-- A tree that is made to span the whole file. -/
theorem spanning_positioned (lines : LineIndex) (size : Nat) (t : Tree) :
    Positioned lines (spanning lines size t) := by
  cases t with
  | node kind props children =>
    refine .of_spanProperties ⟨0, size⟩ fun key hkey => ?_
    show (props.setAll (spanProperties lines ⟨0, size⟩)).get? key = _
    rw [Properties.get?_setAll (spanProperties_keys ..),
      Option.or_of_isSome (spanProperties_lookup hkey)]
    rfl

/-! ## Parsed text -/

/-- **A converted node has the positions of its span**, if the native node has the points of its
bytes and lies behind the lead. -/
theorem Conversion.below_positioned {describe : Describe} {text view : Bytes} {start lead : Nat}
    (hd : ∀ t, Unplaced (describe t view)) (hlines : LinesOf src start lead text) (e : Bool)
    {t : ParseTree} (ht : t.pointed text = true) (hlow : lead ≤ t.head.start) :
    Positioned (LineIndex.ofSource src) (Conversion.below describe view
      (shiftTo (LineIndex.ofSource src) start lead) e t).root := by
  have hspan := hlines.spanProperties_eq (ParseTree.pointed_iff.mp ht).1 hlow
  exact .of_spanProperties _ fun key hkey => hspan ▸ Conversion.get?_below hd hkey e t

/-- The markup is parsed from a view of the whole file. -/
theorem markupView_linesOf (src : Bytes) (scanned : List Segment) :
    LinesOf src 0 0 (markupView src scanned) := by
  have hblanked : Blanked src ⟨0, src.size⟩ (markupView src scanned) := blanked_blankRanges
  have hsize := hblanked.size_eq
  refine ⟨Nat.zero_le _, by simp only at hsize; omega, nofun, fun j hj => ?_⟩
  have := hblanked.newline_iff j (by omega)
  rwa [Nat.zero_add] at this ⊢

/-- **A wrapper begins on one line**, so that the rows of what it wraps are those of the file. -/
theorem wrapperOf?_line {c : Construct} {w : Wrapper} (h : wrapperOf? c = some w) :
    Bytes.newline ∉ Bytes.ofText w.opening := by
  unfold wrapperOf? at h
  split at h
  · split at h
    · obtain rfl := Option.some.inj h
      decide +kernel
    · split at h
      · obtain rfl := Option.some.inj h
        decide +kernel
      · cases h
  · cases h

/-- A part of the code ends at a closing brace. -/
theorem codeView_brace (h : scan src = .ok scanned) {s : Segment} (hs : s ∈ allSegments scanned)
    {v : CodeView} (hv : v ∈ codeViews src s) : src[v.part.stop]? = some 0x7D := by
  rw [allSegments_eq] at hs
  exact segments_closed src 0 src.size scanned h s hs _
    (s.codeParts_sublist.subset (codeViews_inner hv).1)

/-- A stretch of the file between a lead and a closing brace. -/
theorem linesOf_append {part : Range} {lead inner closing : Bytes}
    (hlead : Bytes.newline ∉ lead) (hinner : Blanked src part inner)
    (hclosing : closing = #[] ∨ closing = #[0x7D] ∧ src[part.stop]? = some 0x7D) :
    LinesOf src part.start lead.size (lead ++ inner ++ closing) := by
  obtain ⟨hle, hstop⟩ := hinner.inside
  have hsize := hinner.size_eq
  have htext : (lead ++ inner ++ closing).size = lead.size + inner.size + closing.size := by
    rw [Array.size_append, Array.size_append]
  refine ⟨by omega, ?_, fun i hi hnew => ?_, fun j hj => ?_⟩
  · rcases hclosing with rfl | ⟨rfl, hbrace⟩
    · rw [htext, Array.size_empty]
      omega
    · obtain ⟨hlt, -⟩ := Array.getElem?_eq_some_iff.mp hbrace
      rw [htext, Array.size_singleton]
      omega
  · rw [Array.append_assoc, Array.getElem?_append_left hi] at hnew
    exact hlead (Array.mem_of_getElem? hnew)
  · rw [Array.append_assoc, Array.getElem?_append_right (Nat.le_add_right _ _),
      Nat.add_sub_cancel_left]
    by_cases hin : j < inner.size
    · rw [Array.getElem?_append_left hin]
      exact hinner.newline_iff j hin
    -- only the brace is left, and there is one in the file
    · rw [Array.getElem?_append_right (by omega)]
      rcases hclosing with rfl | ⟨rfl, hbrace⟩
      · rw [htext, Array.size_empty] at hj
        omega
      · rw [htext, Array.size_singleton] at hj
        have hend : part.start + j = part.stop := by omega
        have hfirst : j - inner.size = 0 := by omega
        rw [hend, hbrace, hfirst]
        exact Iff.rfl

/-- **A part of the code is parsed from a text whose lines are those of the file.** -/
theorem codeView_linesOf (h : scan src = .ok scanned) {s : Segment} (hs : s ∈ allSegments scanned)
    {v : CodeView} (hv : v ∈ codeViews src s) : LinesOf src v.part.start v.lead.size v.text := by
  obtain ⟨hblanked, htext⟩ := codeView_blanked (scan_scanned h) hs hv
  have hwrapper : v.wrapper = wrapperOf? s.construct := by
    obtain ⟨part, -, rfl⟩ := List.mem_map.mp hv
    rfl
  rw [htext]
  unfold CodeView.lead CodeView.closing
  cases hw : v.wrapper with
  | none => exact linesOf_append (Array.not_mem_empty _) hblanked (.inl rfl)
  | some w =>
    refine linesOf_append (wrapperOf?_line (hwrapper.symm.trans hw)) hblanked (.inr ⟨?_, ?_⟩)
    · show Bytes.ofText "\x7d" = #[0x7D]
      decide +kernel
    · exact codeView_brace h hs hv

/-! ## Recorded trees -/

/-- **What is assumed of the recorded trees**: they have the points of their bytes, and the code
inside a wrapper is found and lies behind the wrapper's text. -/
structure RecordedPoints (parse : Parse) (src : Bytes) (scanned : List Segment) : Prop where
  markup : ∀ t, parse markupGrammar (markupView src scanned) = .ok t →
    t.pointed (markupView src scanned) = true
  code : ∀ s ∈ allSegments scanned, ∀ v ∈ codeViews src s, ∀ t,
    parse codeGrammar v.text = .ok t → t.pointed v.text = true
  /-- The tree of a wrapped part has the node of the wrapper, with a body whose children begin no
  earlier than the part does. -/
  wrapped : ∀ s ∈ allSegments scanned, ∀ v ∈ codeViews src s, ∀ w, v.wrapper = some w → ∀ t,
    parse codeGrammar v.text = .ok t → ∃ outer body,
      (t.convert v.text Dialect.CSharp.describe (v.shift (LineIndex.ofSource src))
        (some codeRootKind)).root.walk.find? (·.kind == w.outer) = some outer
      ∧ outer.firstChild? w.body = some body
      ∧ ∀ c ∈ body.children, v.part.start ≤ (ofTree c).start

/-- **Whether recorded trees have the points of their bytes** and the code of wrapped parts is
found. -/
def pointsRecorded (parse : Parse) (src : Bytes) (scanned : List Segment) : Bool :=
  let view := markupView src scanned
  (parse markupGrammar view).toOption.all (·.pointed view)
    && (allSegments scanned).all fun s => (codeViews src s).all fun v =>
      (parse codeGrammar v.text).toOption.all fun t => t.pointed v.text && v.wrapper.all fun w =>
        ((t.convert v.text Dialect.CSharp.describe (v.shift (LineIndex.ofSource src))
          (some codeRootKind)).root.walk.find? (·.kind == w.outer)).any fun outer =>
            (outer.firstChild? w.body).any fun body =>
              body.children.all fun c => v.part.start ≤ (ofTree c).start

/-- What the check finds pointed is pointed. -/
theorem recordedPoints_of_pointsRecorded (h : pointsRecorded parse src scanned = true) :
    RecordedPoints parse src scanned := by
  unfold pointsRecorded at h
  dsimp only at h
  rw [Bool.and_eq_true, List.all_eq_true] at h
  obtain ⟨hmarkup, hcode⟩ := h
  have hview : ∀ s ∈ allSegments scanned, ∀ v ∈ codeViews src s, ∀ t,
      parse codeGrammar v.text = .ok t → _ ∧ _ := fun s hs v hv t ht =>
    Bool.and_eq_true_iff.mp (Answers.of_all (List.all_eq_true.mp (hcode s hs) v hv) t ht)
  refine ⟨Answers.of_all hmarkup, fun s hs v hv t ht => (hview s hs v hv t ht).1,
    fun s hs v hv w hw t ht => ?_⟩
  have hwrapped := (hview s hs v hv t ht).2
  rw [hw] at hwrapped
  obtain ⟨outer, houter, hbody⟩ := (Option.any_eq_true ..).mp hwrapped
  obtain ⟨body, hbody, hbehind⟩ := (Option.any_eq_true ..).mp hbody
  refine ⟨outer, body, houter, hbody, fun c hc => ?_⟩
  exact decide_eq_true_iff.mp (List.all_eq_true.mp hbehind c hc)

/-- The markup is not moved. -/
theorem shiftTo_zero (src : Bytes) : shiftTo (LineIndex.ofSource src) 0 0 = {} := by
  unfold shiftTo
  rw [Int.natCast_zero, ← Int.natCast_zero, LineIndex.position_eq (Nat.zero_le _)]
  rfl

/-- The children of a converted tree's root are conversions of native nodes. -/
theorem exists_below_of_convert {t : ParseTree} {describe : Describe} {text view : Bytes}
    {shift : Shift} {kind : Option String} (ht : t.pointed text = true) {u : Tree}
    (hu : u ∈ preorderAll (t.convert view describe shift kind).root.children) :
    ∃ e' t', t'.pointed text = true
      ∧ u = (Conversion.below describe view shift e' t').root := by
  obtain ⟨e', t', ht', -, rfl⟩ := Conversion.exists_below_of_mem t.head.error t.children
    t.head.start (ParseTree.pointed_iff.mp ht).2 u hu
  exact ⟨e', t', ht', rfl⟩

/-- **The nodes of the markup have the positions of their spans.** -/
theorem markupTree_positioned {t : ParseTree} (ht : t.pointed (markupView src scanned) = true) :
    ∀ u ∈ (markupTree src t).preorder, Positioned (LineIndex.ofSource src) u := by
  intro u hu
  rw [Tree.preorder_eq, List.mem_cons] at hu
  rcases hu with rfl | hu
  · exact spanning_positioned ..
  · rw [markupTree, spanning_children] at hu
    obtain ⟨e', t', ht', rfl⟩ := exists_below_of_convert ht hu
    have := Conversion.below_positioned (fun t => markup_unplaced t src) (markupView_linesOf src scanned) e'
      ht' (Nat.zero_le _)
    rwa [shiftTo_zero] at this

/-- **The code of a part comes of native nodes that lie behind the lead.** -/
theorem exists_below_of_wrappedMembers (hrec : RecordedPoints parse src scanned) {s : Segment}
    (hs : s ∈ allSegments scanned) {v : CodeView} (hv : v ∈ codeViews src s) {t : ParseTree}
    (ht : parse codeGrammar v.text = .ok t) {u : Tree}
    (hu : u ∈ preorderAll (wrappedMembers v.wrapper (t.convert v.text Dialect.CSharp.describe
      (v.shift (LineIndex.ofSource src)) (some codeRootKind)).root)) :
    ∃ e' t', t'.pointed v.text = true ∧ v.lead.size ≤ t'.head.start
      ∧ u = (Conversion.below Dialect.CSharp.describe v.text (v.shift (LineIndex.ofSource src))
        e' t').root := by
  have hpointed := hrec.code s hs v hv t ht
  unfold wrappedMembers at hu
  cases hw : v.wrapper with
  | none =>
    rw [hw] at hu
    obtain ⟨e', t', ht', rfl⟩ := exists_below_of_convert hpointed hu
    refine ⟨e', t', ht', ?_, rfl⟩
    rw [CodeView.lead, hw]
    exact Nat.zero_le _
  | some w =>
    obtain ⟨outer, body, houter, hbody, hbehind⟩ := hrec.wrapped s hs v hv w hw t ht
    rw [hw] at hu
    dsimp only at hu
    rw [houter, Option.bind_some, hbody] at hu
    rw [Tree.preorderAll_eq_flatMap, List.mem_flatMap] at hu
    obtain ⟨c, hc, huc⟩ := hu
    -- the child of the body is native, and so is what is below it
    have hmem : c ∈ preorderAll (t.convert v.text Dialect.CSharp.describe
        (v.shift (LineIndex.ofSource src)) (some codeRootKind)).root.children := by
      have hin := Tree.walk_eq _ ▸ List.mem_of_find?_eq_some houter
      refine Tree.mem_below_trans (Tree.mem_preorder_trans hin ?_)
        (Tree.mem_preorderAll_of_mem hc)
      exact Tree.mem_preorder_of_below
        (Tree.mem_preorderAll_of_mem (List.mem_of_find?_eq_some hbody))
    obtain ⟨e', t', ht', rfl⟩ := exists_below_of_convert hpointed hmem
    have hstart := hbehind _ hc
    rw [Conversion.ofTree_below fun t => csharp_unplaced t v.text] at hstart
    obtain ⟨e'', t'', ht'', hle, rfl⟩ := Conversion.exists_below e' t' ht' u huc
    refine ⟨e'', t'', ht'', ?_, rfl⟩
    have hbyte : (v.shift (LineIndex.ofSource src)).byte = v.part.start - v.lead.size := rfl
    rw [hbyte] at hstart
    dsimp only at hstart
    omega

/-- **The nodes of a part of the code have the positions of their spans.** -/
theorem parseCode_positioned (h : scan src = .ok scanned)
    (hrec : RecordedPoints parse src scanned) {s : Segment} (hs : s ∈ allSegments scanned)
    {v : CodeView} (hv : v ∈ codeViews src s) :
    Answers (parseCode parse (LineIndex.ofSource src) v)
      fun r => ∀ u ∈ preorderAll r.1, Positioned (LineIndex.ofSource src) u := by
  refine .bind .self fun t ht => .pure fun u hu => ?_
  obtain ⟨e', t', ht', hlead, rfl⟩ := exists_below_of_wrappedMembers hrec hs hv ht hu
  exact Conversion.below_positioned (fun t => csharp_unplaced t v.text) (codeView_linesOf h hs hv)
    e' ht' hlead

/-- **The node of a construct and its code have the positions of their spans.** -/
theorem segmentNode_positioned (h : scan src = .ok scanned)
    (hrec : RecordedPoints parse src scanned) {s : Segment} (hs : s ∈ allSegments scanned) :
    Answers (segmentNode parse src (LineIndex.ofSource src) s)
      fun r => ∀ u ∈ r.1.preorder, Positioned (LineIndex.ofSource src) u := by
  have hparts : Answers ((codeViews src s).mapM (parseCode parse (LineIndex.ofSource src)))
      (List.Forall₂ (fun _ r => ∀ u ∈ preorderAll r.1, Positioned (LineIndex.ofSource src) u)
        (codeViews src s)) := .mapM fun v hv => parseCode_positioned h hrec hs hv
  refine .bind hparts fun results hresults => .pure fun u hu => ?_
  rw [Tree.preorder_eq, List.mem_cons] at hu
  rcases hu with rfl | hu
  · exact .of_spanProperties ⟨s.start, s.stop⟩ fun key hkey =>
      s.construct.properties_unplaced.get?_foldl hkey _
  · obtain ⟨c, hc, huc⟩ := List.mem_flatMap.mp (Tree.preorderAll_eq_flatMap _ ▸ hu)
    obtain ⟨r, hr, hcr⟩ := List.mem_flatMap.mp hc
    obtain ⟨i, hi, rfl⟩ := List.mem_iff_getElem.mp hr
    have hpart := hresults.get (hresults.length_eq ▸ hi) hi
    exact hpart u (Tree.mem_preorderAll_of_preorder (Tree.mem_preorderAll_of_mem hcr) huc)

/-! ## The merged tree -/

/-- **Insertions keep the positions** of all nodes. -/
theorem insertAll_positioned {s : Source} {root : Tree} {nodes : List Tree}
    (hcut : ∀ t ∈ nodes, (ofTree t).start ≤ (ofTree t).stop)
    (hnodes : ∀ t ∈ nodes, ∀ u ∈ t.preorder, Positioned s.lines u)
    (hroot : ∀ u ∈ root.preorder, Positioned s.lines u) :
    ∀ u ∈ (insertAll s root nodes).preorder, Positioned s.lines u := by
  obtain ⟨htop, hold⟩ := forall_preorder_iff.mp hroot
  refine forall_preorder_iff.mpr ⟨htop.of_head (insertAll_head s root nodes), ?_⟩
  refine forall_insertAll positioned_ofHead (fun t ht => ?_) hold
  obtain ⟨hself, hown⟩ := forall_preorder_iff.mp (hnodes t ht)
  exact ⟨hcut t ht, positioned_kept _, fun w hw => hself.of_head hw, hown⟩

/-- **The positions of a template's tree are those of the file.** -/
theorem buildTemplate_positioned {tolerance : Tolerance} {path : String} {built : Analysis.Built}
    (h : Analysis.buildTemplate parse tolerance path src = .ok built)
    (hrec : ∀ scanned, scan src = .ok scanned → RecordedPoints parse src scanned) :
    (∀ u ∈ built.root.preorder, Positioned (LineIndex.ofSource src) u)
      ∧ ∀ o ≤ src.size, (LineIndex.ofSource src).position o
        = (1 + (src.newlinesBefore o : Int), (o : Int) - src.lineStart o) := by
  obtain ⟨scanned, markup, nodes, hscan, hm⟩ := buildTemplate_merges _ h
  have hrec := hrec scanned hscan
  refine ⟨?_, fun o ho => LineIndex.position_eq ho⟩
  rw [hm.root_eq]
  refine insertAll_positioned (s := sourceOf src scanned)
    (fun t ht => Int.le_of_lt (hm.node hscan t ht).2.1) (fun t ht => ?_) ?_
  · obtain ⟨s, hs, count, bytes, hnode⟩ := hm.exists_segmentNode ht
    exact segmentNode_positioned hscan hrec hs _ hnode
  · obtain ⟨t, ht, rfl⟩ := hm.markup_eq
    exact markupTree_positioned (hrec.markup t ht)

/-- A block of members on two lines: `x⏎@code{a;⏎b;}`. -/
def membersSource : Bytes :=
  #[0x78, 0x0A, 0x40, 0x63, 0x6F, 0x64, 0x65, 0x7B, 0x61, 0x3B, 0x0A, 0x62, 0x3B, 0x7D]

/-- The members as they are parsed, in a class. -/
def membersText : Bytes := Bytes.ofText "class __RazorCode \x7ba;\nb;\x7d"

/-- A named node of a recorded tree with the points of a text. -/
def pointedNode (text : Bytes) (kind : String) (start stop : Nat) (children : List ParseTree) :
    ParseTree :=
  .node ⟨kind, true, false, false, start, stop, text.pointAt start, text.pointAt stop, []⟩ children

/-- The text of the markup is recorded, and a field on each line of the class. -/
def membersParse : Parse :=
  recordedParse (pointedNode membersSource "document" 0 1
      [pointedNode membersSource "text" 0 1 []])
    (pointedNode membersText "compilation_unit" 0 25
      [pointedNode membersText "class_declaration" 0 25
        [pointedNode membersText "declaration_list" 18 25
          [pointedNode membersText "field_declaration" 19 21 [],
            pointedNode membersText "field_declaration" 22 24 []]]])

/-- The second field stands at the beginning of the third line. -/
theorem buildTemplate_positioned_members : ∃ built,
    Analysis.buildTemplate membersParse .half "members" membersSource = .ok built
      ∧ built.root.preorder.map (fun u => (u.get? "start_line", u.get? "start_column"))
        = [(some (.int 1), some (.int 0)), (some (.int 1), some (.int 0)),
          (some (.int 2), some (.int 0)), (some (.int 2), some (.int 6)),
          (some (.int 3), some (.int 0))]
      ∧ ∀ u ∈ built.root.preorder, Positioned (LineIndex.ofSource membersSource) u := by
  have hpoints : (scan membersSource).toOption.all (pointsRecorded membersParse membersSource)
      = true := by decide +kernel
  have hrun : (Analysis.buildTemplate membersParse .half "members" membersSource).map
      (fun built => built.root.preorder.map fun u => (u.get? "start_line", u.get? "start_column"))
        = .ok [(some (.int 1), some (.int 0)), (some (.int 1), some (.int 0)),
          (some (.int 2), some (.int 0)), (some (.int 2), some (.int 6)),
          (some (.int 3), some (.int 0))] := by decide +kernel
  obtain ⟨built, hbuilt, hlines⟩ := Answers.exists_of_map hrun
  refine ⟨built, hbuilt, hlines, (buildTemplate_positioned hbuilt fun scanned hscan => ?_).1⟩
  exact recordedPoints_of_pointsRecorded (Answers.of_all hpoints scanned hscan)

end SyntaxForest.Template
