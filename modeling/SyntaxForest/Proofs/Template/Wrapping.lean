import SyntaxForest.Proofs.Template.Kept
import SyntaxForest.Proofs.Template.Position

/-!
# What a wrapper leaves of parsed code

A part of the code that needs a wrapper is parsed inside it, and the wrapper is undone by taking
the children of a body, which is looked for among the nodes (`CodeView.host`). That body need not
be the wrapper's: if the wrapper was not recognised, a type that the code itself declares is
found instead, or nothing, and then all nodes are taken, with spans that begin before the part.

`Attached` says what is attached for whatever tree is recorded: every node that is kept below the
host, once and in order. From this it is read off when no node begins before the part, and when
no named node of the part is lost. Both hold if the host is the wrapper's own body
(`CodeView.IsBody`).
-/

namespace SyntaxForest.Template

open Segment SyntaxForest.Template.Span SyntaxForest.Tree

variable {src : Bytes} {scanned : List Segment} {s : Segment} {v : CodeView} {t : ParseTree}
  {parse : Parse} {lines : LineIndex} {trees : List Tree}

namespace CodeView

/-- **The native node whose children are taken as the code** of a part. -/
def host (v : CodeView) (t : ParseTree) : ParseTree :=
  match v.wrapper with
  | none => t
  | some w =>
    match (t.keptBelow.find? fun n => categoryOf n.kind == w.outer).bind fun outer =>
        outer.namedChildren.find? fun c => categoryOf c.kind == w.body with
    | some body => body
    | none => t

/-- What the conversion of a part makes of a native node. -/
def moved (v : CodeView) (lines : LineIndex) : ParseTree → Tree :=
  Conversion.converted Dialect.CSharp.describe v.text (v.shift lines)

/-- The host of a view is the whole parse tree or a kept node of it. -/
theorem host_eq_or_mem (v : CodeView) (t : ParseTree) :
    v.host t = t ∨ v.host t ∈ t.keptBelow := by
  unfold host
  split
  · exact .inl rfl
  · split
    · next body hbody =>
      obtain ⟨outer, houter, hbody⟩ := Option.bind_eq_some_iff.mp hbody
      exact .inr (ParseTree.mem_keptBelow_trans (List.mem_of_find?_eq_some houter)
        (ParseTree.mem_keptBelow_of_mem (List.mem_of_find?_eq_some hbody)))
    · exact .inl rfl

/-- The wrapper is not taken for the root. -/
theorem wrapperOf?_outer {c : Construct} {w : Wrapper} (h : wrapperOf? c = some w) :
    (codeRootKind == w.outer) = false := by
  unfold wrapperOf? at h
  split at h
  · split at h
    · cases h
      decide
    · split at h
      · cases h
        decide
      · cases h
  · cases h

theorem wrapper_eq (hv : v ∈ codeViews src s) : v.wrapper = wrapperOf? s.construct := by
  obtain ⟨part, -, rfl⟩ := List.mem_map.mp hv
  rfl

theorem firstChild?_moved (o : ParseTree) (kind : String) :
    (v.moved lines o).firstChild? kind
      = (o.namedChildren.find? fun c => categoryOf c.kind == kind).map (v.moved lines) := by
  rw [Tree.firstChild?, moved, Conversion.converted_children, List.find?_map]
  congr 2
  funext c
  rw [Function.comp_apply, Conversion.converted_kind]

/-- **The code inside a wrapper** comes from the children of the host. -/
theorem wrappedMembers_eq (hv : v ∈ codeViews src s) (lines : LineIndex) (t : ParseTree) :
    wrappedMembers v.wrapper
        (t.convert v.text Dialect.CSharp.describe (v.shift lines) (some codeRootKind)).root
      = (v.host t).namedChildren.map (v.moved lines) := by
  have hchildren : (t.convert v.text Dialect.CSharp.describe (v.shift lines)
      (some codeRootKind)).root.children = t.namedChildren.map (v.moved lines) :=
    Conversion.convert_children t _
  unfold wrappedMembers host
  cases hw : v.wrapper with
  | none => exact hchildren
  | some w =>
    have houter := wrapperOf?_outer ((wrapper_eq hv).symm.trans hw)
    have hfind : (t.convert v.text Dialect.CSharp.describe (v.shift lines)
        (some codeRootKind)).root.walk.find? (·.kind == w.outer)
        = (t.keptBelow.find? fun n => categoryOf n.kind == w.outer).map (v.moved lines) := by
      rw [Tree.walk_eq, Tree.preorder_eq, hchildren, List.find?_cons]
      show (match codeRootKind == w.outer with | true => _ | false => _) = _
      rw [houter]
      dsimp only
      rw [ParseTree.keptBelow_eq, ParseTree.namedChildren, moved, Conversion.preorderAll_converted,
        List.find?_map]
      congr 2
      funext c
      rw [Function.comp_apply, Conversion.converted_kind]
    dsimp only
    rw [hfind, Option.bind_map]
    cases t.keptBelow.find? fun n => categoryOf n.kind == w.outer with
    | none => exact hchildren
    | some outer =>
      rw [Option.bind_some, Option.bind_some, Function.comp_apply, firstChild?_moved]
      cases outer.namedChildren.find? fun c => categoryOf c.kind == w.body with
      | none => exact hchildren
      | some body => exact Conversion.converted_children body

/-! ## Spans -/

theorem ofTree_moved (v : CodeView) (lines : LineIndex) (n : ParseTree) :
    ofTree (v.moved lines n) = ⟨n.head.start + ((v.part.start : Int) - v.lead.size),
      n.head.stop + ((v.part.start : Int) - v.lead.size)⟩ :=
  Conversion.ofTree_converted (fun t => csharp_unplaced t v.text) n

/-- Whether a native node lies in the part. -/
def holds (v : CodeView) (n : ParseTree) : Bool :=
  v.lead.size ≤ n.head.start && n.head.stop ≤ v.lead.size + (v.part.stop - v.part.start)

/-- Whether a node of the template lies in the part. -/
def inPart (v : CodeView) (u : Tree) : Bool :=
  v.part.start ≤ (ofTree u).start && (ofTree u).stop ≤ v.part.stop

/-- A moved node is in the part if the view holds it. -/
theorem inPart_moved (hpart : v.part.start ≤ v.part.stop) (n : ParseTree) :
    v.inPart (v.moved lines n) = v.holds n := by
  rw [inPart, holds, ofTree_moved]
  dsimp only
  congr 1 <;> exact decide_eq_decide.mpr (by omega)

/-- **No named node of the part is lost**: what is attached in the part are the named nodes that
lie in it, each once and in order. -/
def Complete (v : CodeView) (lines : LineIndex) (t : ParseTree) (trees : List Tree) : Prop :=
  (preorderAll trees).filter v.inPart = (t.namedBelow.filter v.holds).map (v.moved lines)

/-- **The wrapper's own body**: it begins with the brace in front of the part, ends where the text
does, and its children lie behind the brace. -/
structure IsBody (v : CodeView) (body : ParseTree) : Prop where
  start : body.head.start + 1 = v.lead.size
  stop : body.head.stop = v.text.size
  behind : ∀ c ∈ body.namedChildren, v.lead.size ≤ c.head.start

end CodeView

/-- **What is attached for a part of the code**, whatever tree has been recorded for it. -/
structure Attached (v : CodeView) (lines : LineIndex) (t : ParseTree) (trees : List Tree) :
    Prop where
  /-- Every node that is kept below the host, once and in order. -/
  nodes : preorderAll trees = (v.host t).keptBelow.map (v.moved lines)
  /-- No node ends behind the part and its closing brace. -/
  stop_le : ∀ u ∈ preorderAll trees, (ofTree u).stop ≤ v.part.stop + v.closing.size
  /-- No node begins before the part if and only if the host has no child in the lead. -/
  start_le_iff : (∀ u ∈ preorderAll trees, v.part.start ≤ (ofTree u).start)
    ↔ ∀ c ∈ (v.host t).namedChildren, v.lead.size ≤ c.head.start
  /-- No named node of the part is lost if and only if all of them are kept below the host. -/
  complete_iff : v.Complete lines t trees
    ↔ (v.host t).keptBelow.filter v.holds = t.namedBelow.filter v.holds
  /-- Both hold without a wrapper, and with one whose body is found, as long as no named node is
  below an anonymous one. -/
  whole : v.wrapper = none ∨ v.IsBody (v.host t) → t.keptBelow = t.namedBelow →
    (∀ u ∈ preorderAll trees, v.part.start ≤ (ofTree u).start) ∧ v.Complete lines t trees

namespace CodeView

/-- **The text that is parsed** is the part with its wrapper around it. -/
theorem size_text (h : Scanned 0 src.size scanned) (hs : s ∈ allSegments scanned)
    (hv : v ∈ codeViews src s) :
    v.part.start ≤ v.part.stop
      ∧ v.text.size = v.lead.size + (v.part.stop - v.part.start) + v.closing.size := by
  obtain ⟨hblanked, htext⟩ := codeView_blanked h hs hv
  refine ⟨hblanked.inside.1, ?_⟩
  rw [htext, Array.size_append, Array.size_append, hblanked.size_eq]

theorem keptBelow_host_sublist (v : CodeView) (ht : t.nested = true) :
    (v.host t).keptBelow.Sublist t.keptBelow := by
  rcases v.host_eq_or_mem t with heq | hmem
  · rw [heq]
  · obtain ⟨before, after, hsplit, -, -⟩ := ParseTree.keptBelow_splitsAt ht hmem
    rw [hsplit]
    exact ((List.sublist_cons_self ..).trans (List.sublist_append_right ..)).trans
      (List.sublist_append_left ..)

/-- The host of a view is nested and ends inside its parse tree. -/
theorem host_inside (v : CodeView) (ht : t.nested = true) :
    (v.host t).nested = true ∧ (v.host t).head.stop ≤ t.head.stop := by
  rcases v.host_eq_or_mem t with heq | hmem
  · rw [heq]
    exact ⟨ht, Nat.le_refl _⟩
  · have := ParseTree.keptBelow_inside ht _ hmem
    exact ⟨this.2.2, this.2.1⟩

theorem not_holds_iff {n : ParseTree} : v.holds n = false ↔ n.head.start < v.lead.size
    ∨ v.lead.size + (v.part.stop - v.part.start) < n.head.stop := by
  rw [holds, Bool.and_eq_false_iff, decide_eq_false_iff_not, decide_eq_false_iff_not, Nat.not_le,
    Nat.not_le]

/-- What is kept outside the wrapper's body does not lie in the part. -/
theorem IsBody.filter_keptBelow (hbody : v.IsBody (v.host t)) (ht : t.nested = true)
    (hsize : v.lead.size + (v.part.stop - v.part.start) < v.text.size) :
    (v.host t).keptBelow.filter v.holds = t.keptBelow.filter v.holds := by
  have hstart := hbody.start
  have hstop := hbody.stop
  rcases v.host_eq_or_mem t with heq | hmem
  · rw [heq]
  · obtain ⟨before, after, hsplit, hbefore, hafter⟩ := ParseTree.keptBelow_splitsAt ht hmem
    have hle : ∀ n ∈ t.keptBelow, n.head.start ≤ n.head.stop := fun n hn =>
      ParseTree.nested_le (ParseTree.keptBelow_inside ht n hn).2.2
    have hnone : ∀ l : List ParseTree, (∀ n ∈ l, v.holds n = false) → l.filter v.holds = [] :=
      fun l hl => List.filter_eq_nil_iff.mpr fun n hn => by rw [hl n hn]; exact Bool.false_ne_true
    rw [hsplit] at hle ⊢
    rw [List.filter_append, List.filter_append, hnone before fun n hn => ?_,
      hnone after fun n hn => ?_, List.filter_cons_of_neg, List.nil_append, List.append_nil]
    · rw [not_holds_iff.mpr (.inl (by omega))]
      exact Bool.false_ne_true
    · have := hle n (List.mem_append_right _ hn)
      have := hafter n hn
      exact not_holds_iff.mpr (.inr (by omega))
    · have := hle n (List.mem_append_left _ (List.mem_append_left _ hn))
      rcases hbefore n hn with hends | hholds
      · exact not_holds_iff.mpr (.inl (by omega))
      · exact not_holds_iff.mpr (.inl (by omega))

/-- A wrapper ends with one byte. -/
theorem closing_of_wrapper {w : Wrapper} (hw : v.wrapper = some w) : v.closing.size = 1 := by
  unfold closing
  rw [hw]
  show (Bytes.ofText "\x7d").size = 1
  decide +kernel

theorem lead_of_none (hw : v.wrapper = none) : v.lead.size = 0 := by
  unfold lead
  rw [hw]
  rfl

end CodeView

/-- **What is attached** for a nested tree of the text that is parsed. -/
theorem attached_wrappedMembers (h : scan src = .ok scanned) (hs : s ∈ allSegments scanned)
    (hv : v ∈ codeViews src s) (lines : LineIndex) (ht : t.nested = true)
    (hstop : t.head.stop ≤ v.text.size) :
    Attached v lines t (wrappedMembers v.wrapper
      (t.convert v.text Dialect.CSharp.describe (v.shift lines) (some codeRootKind)).root) := by
  obtain ⟨hpart, hsize⟩ := CodeView.size_text (scan_scanned h) hs hv
  obtain ⟨hhost, hhoststop⟩ := v.host_inside ht
  have hinside := ParseTree.keptBelow_inside hhost
  have hnodes : preorderAll (wrappedMembers v.wrapper (t.convert v.text Dialect.CSharp.describe
      (v.shift lines) (some codeRootKind)).root) = (v.host t).keptBelow.map (v.moved lines) := by
    rw [CodeView.wrappedMembers_eq hv, ParseTree.keptBelow_eq]
    exact Conversion.preorderAll_converted _
  have hstart : (∀ u ∈ preorderAll (wrappedMembers v.wrapper (t.convert v.text
        Dialect.CSharp.describe (v.shift lines) (some codeRootKind)).root),
        v.part.start ≤ (ofTree u).start)
      ↔ ∀ c ∈ (v.host t).namedChildren, v.lead.size ≤ c.head.start := by
    rw [hnodes, List.forall_mem_map]
    simp only [CodeView.ofTree_moved]
    constructor
    · intro hall c hc
      have := hall c (ParseTree.mem_keptBelow_of_mem hc)
      omega
    · intro hall n hn
      obtain ⟨c, hc, hle⟩ := ParseTree.exists_namedChild hhost hn
      have := hall c hc
      omega
  have hcomplete : v.Complete lines t (wrappedMembers v.wrapper (t.convert v.text
        Dialect.CSharp.describe (v.shift lines) (some codeRootKind)).root)
      ↔ (v.host t).keptBelow.filter v.holds = t.namedBelow.filter v.holds := by
    have hsublist := ((v.keptBelow_host_sublist ht).trans t.keptBelow_sublist).filter v.holds
    have hfilter : v.inPart ∘ v.moved lines = v.holds :=
      funext fun n => CodeView.inPart_moved hpart n
    rw [CodeView.Complete, hnodes, List.filter_map, hfilter]
    refine ⟨fun heq => hsublist.eq_of_length ?_, fun heq => congrArg _ heq⟩
    rw [← List.length_map (v.moved lines), heq, List.length_map]
  refine ⟨hnodes, ?_, hstart, hcomplete, ?_⟩
  · rw [hnodes, List.forall_mem_map]
    intro n hn
    rw [CodeView.ofTree_moved]
    have := hinside n hn
    dsimp only
    omega
  · intro hwhole hnamed
    rw [hstart, hcomplete, ← hnamed]
    rcases hwhole with hnone | hbody
    · refine ⟨fun c _ => ?_, ?_⟩
      · rw [CodeView.lead_of_none hnone]
        exact Nat.zero_le _
      · rw [CodeView.host, hnone]
    · refine ⟨hbody.behind, hbody.filter_keptBelow ht ?_⟩
      cases hw : v.wrapper with
      | none =>
        have := hbody.start
        rw [CodeView.lead_of_none hw] at this
        omega
      | some w =>
        rw [hsize, CodeView.closing_of_wrapper hw]
        omega

/-! ## The nodes of constructs -/

/-- Work on several things that all answer. -/
theorem exists_mapM {ε α β : Type} {f : α → Except ε β} {P : α → β → Prop} {l : List α}
    (h : ∀ a ∈ l, ∃ b, f a = .ok b ∧ P a b) : ∃ bs, l.mapM f = .ok bs ∧ List.Forall₂ P l bs := by
  induction l with
  | nil => exact ⟨[], rfl, .nil⟩
  | cons a rest ih =>
    obtain ⟨b, hb, hab⟩ := h a List.mem_cons_self
    obtain ⟨bs, hbs, hrest⟩ := ih fun a' ha' => h a' (List.mem_cons_of_mem _ ha')
    refine ⟨b :: bs, ?_, .cons hab hrest⟩
    rw [List.mapM_cons, hb, hbs]
    rfl

/-- The conversion of the tree of a part. -/
def CodeView.conversion (v : CodeView) (lines : LineIndex) (t : ParseTree) : Conversion :=
  t.convert v.text Dialect.CSharp.describe (v.shift lines) (some codeRootKind)

/-- **What is parsed for a view** is converted, and taken out of its wrapper. -/
theorem parseCode_eq (hparse : parse codeGrammar v.text = .ok t) (lines : LineIndex) :
    parseCode parse lines v = .ok (wrappedMembers v.wrapper (v.conversion lines t).root,
      (v.conversion lines t).errorCount, (v.conversion lines t).errorBytes) := by
  unfold parseCode
  rw [hparse]
  rfl

/-- The weights of several things, added up. -/
theorem foldl_snd {α : Type} {f : Nat × Nat → α → Nat × Nat} {weight : α → Nat}
    (hf : ∀ acc a, (f acc a).2 = acc.2 + weight a) (l : List α) (acc : Nat × Nat) :
    (l.foldl f acc).2 = acc.2 + (l.map weight).sum := by
  induction l generalizing acc with
  | nil => rfl
  | cons a rest ih => rw [List.foldl_cons, ih, hf, List.map_cons, List.sum_cons, Nat.add_assoc]

/-- **The node of a construct whose parts are parsed**: their code is below it, and the weights of
their errors are added up. -/
theorem segmentNode_of_parts {parts : List (List Tree × Nat × Nat)}
    (h : (codeViews src s).mapM (parseCode parse lines) = .ok parts) :
    ∃ node count bytes, segmentNode parse src lines s = .ok (node, count, bytes)
      ∧ node.children = parts.flatMap (·.1) ∧ bytes = (parts.map (·.2.2)).sum := by
  unfold segmentNode
  rw [h]
  exact ⟨_, _, _, rfl, rfl, (foldl_snd (fun _ _ => rfl) parts (0, 0)).trans (Nat.zero_add _)⟩

/-- **What the recorded trees attach to the node of a construct.** If the tree of each part is
nested and ends inside the text that is parsed, the construct has a node, and its children are
what is attached for the parts, one after another. -/
theorem segmentNode_attached (h : scan src = .ok scanned) (hs : s ∈ allSegments scanned)
    (lines : LineIndex) (hrecorded : ∀ v ∈ codeViews src s, ∃ t,
      parse codeGrammar v.text = .ok t ∧ t.nested = true ∧ t.head.stop ≤ v.text.size) :
    ∃ node count bytes members, segmentNode parse src lines s = .ok (node, count, bytes)
      ∧ node.children = members.flatten
      ∧ List.Forall₂ (fun v trees => ∃ t, parse codeGrammar v.text = .ok t
          ∧ Attached v lines t trees) (codeViews src s) members := by
  obtain ⟨parts, hparts, hall⟩ := exists_mapM (f := parseCode parse lines)
    (P := fun v r => ∃ t, parse codeGrammar v.text = .ok t ∧ Attached v lines t r.1)
    (l := codeViews src s) fun v hv => by
      obtain ⟨t, hparse, hnested, hstop⟩ := hrecorded v hv
      exact ⟨_, parseCode_eq hparse lines, t, hparse,
        attached_wrappedMembers h hs hv lines hnested hstop⟩
  obtain ⟨node, count, bytes, hnode, hchildren, -⟩ := segmentNode_of_parts hparts
  refine ⟨node, count, bytes, parts.map (·.1), hnode, ?_, List.forall₂_map_right_iff.mpr hall⟩
  rw [hchildren, List.flatMap_def]

/-- What is attached to the nodes of a template's constructs, by categories and spans. -/
def attachedIn (parse : Parse) (src : Bytes) : Option (List (List (String × Span))) :=
  (scan src).toOption.bind fun scanned => (allSegments scanned).mapM fun s =>
    (segmentNode parse src (LineIndex.ofSource src) s).toOption.map fun r =>
      (preorderAll r.1.children).map fun u => (u.kind, ofTree u)

/-- The two fields of a block are attached where they stand. -/
theorem segmentNode_attached_fields : ∃ scanned s node count bytes members,
    scan membersSource = .ok scanned ∧ s ∈ allSegments scanned
      ∧ segmentNode membersParse membersSource (LineIndex.ofSource membersSource) s
        = .ok (node, count, bytes)
      ∧ node.children = members.flatten
      ∧ List.Forall₂ (fun v trees => ∃ t, membersParse codeGrammar v.text = .ok t
          ∧ Attached v (LineIndex.ofSource membersSource) t trees)
        (codeViews membersSource s) members
      ∧ attachedIn membersParse membersSource
        = some [[("FieldDeclaration", ⟨8, 10⟩), ("FieldDeclaration", ⟨11, 13⟩)]] := by
  have hrecorded : (scan membersSource).toOption.any (fun scanned =>
      !(allSegments scanned).isEmpty && (allSegments scanned).all fun s =>
        (codeViews membersSource s).all fun v => (membersParse codeGrammar v.text).toOption.any
          fun t => t.nested && t.head.stop ≤ v.text.size) = true := by decide +kernel
  obtain ⟨scanned, hscan, hall⟩ := Answers.exists_of_any hrecorded
  rw [Bool.and_eq_true, Bool.not_eq_true', List.isEmpty_eq_false_iff_exists_mem] at hall
  obtain ⟨⟨s, hs⟩, hall⟩ := hall
  have hparsed : ∀ v ∈ codeViews membersSource s, ∃ t,
      membersParse codeGrammar v.text = .ok t ∧ t.nested = true ∧ t.head.stop ≤ v.text.size := by
    intro v hv
    have hv := List.all_eq_true.mp (List.all_eq_true.mp hall s hs) v hv
    obtain ⟨t, ht, hnested⟩ := Answers.exists_of_any hv
    rw [Bool.and_eq_true, decide_eq_true_iff] at hnested
    exact ⟨t, ht, hnested⟩
  obtain ⟨node, count, bytes, members, hnode, hchildren, hattached⟩ :=
    segmentNode_attached hscan hs (LineIndex.ofSource membersSource) hparsed
  exact ⟨scanned, s, node, count, bytes, members, hscan, hs, hnode, hchildren, hattached,
    by decide +kernel⟩

/-! ### Wrappers that are not recognised -/

/-- A block without members: `@code{}`. -/
def emptySource : Bytes := #[0x40, 0x63, 0x6F, 0x64, 0x65, 0x7B, 0x7D]

/-- An error covers all of its wrapped text, `class __RazorCode {}`. -/
def emptyTree : ParseTree :=
  namedNode "compilation_unit" 0 20
    [.node ⟨"ERROR", true, false, true, 0, 20, default, default, []⟩ []]

/-- A block with a type and a field: `@code{class A{int x;}int y;}`. -/
def typeSource : Bytes := Bytes.ofText "@code\x7bclass A\x7bint x;\x7dint y;\x7d"

/-- The wrapper's opening is an error, and the type in the block is recognised. -/
def typeTree : ParseTree :=
  namedNode "compilation_unit" 0 41
    [.node ⟨"ERROR", true, false, true, 0, 19, default, default, []⟩ [],
      namedNode "class_declaration" 19 34
        [namedNode "identifier" 25 26 [],
          namedNode "declaration_list" 26 34 [namedNode "field_declaration" 27 33 []]],
      namedNode "global_statement" 34 40 [],
      .node ⟨"ERROR", true, false, true, 40, 41, default, default, []⟩ []]

/-- **A wrapper can be seen**: the error in the first block begins before the file does, and of
the second block nothing is attached but the field of the type, though both trees are nested and
end where the texts do. -/
theorem segmentNode_unwrapped :
    (emptyTree.nested = true ∧ attachedIn (recordedParse (namedNode "document" 0 0 []) emptyTree)
        emptySource = some [[("Error", ⟨-13, 7⟩)]])
      ∧ typeTree.nested = true
      ∧ attachedIn (recordedParse (namedNode "document" 0 0 []) typeTree) typeSource
        = some [[("FieldDeclaration", ⟨14, 20⟩)]] := by
  decide +kernel

end SyntaxForest.Template
