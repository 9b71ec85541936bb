import SyntaxForest.Proofs.Template.Siblings
import SyntaxForest.Template.Document

/-!
# From recorded parse trees to what is merged

The parsers of the markup and of the code are parameters. What is asked of their trees
is `ParseTree.nested`: the children of every node stand in order inside it. It carries
over to the syntax trees (`convert_precedes`), because a conversion leaves out nodes
and moves all spans by the same distance, and because no dialect describes a span.

A merge is then a fold of insertions over the tree of the markup (`Merges`).
-/

namespace SyntaxForest

open Template Span

/-! ## Properties -/

namespace Properties

variable {props : Properties} {key k : String} {v : Scalar}

theorem get?_set_of_ne (h : key ≠ k) : (props.set key v).get? k = props.get? k := by
  unfold get?
  induction props with
  | nil => rw [set, List.lookup_cons, beq_false_of_ne h.symm]
  | cons p rest ih =>
    rw [set]
    by_cases hp : p.1 = key
    · rw [if_pos hp, List.lookup_cons, List.lookup_cons, hp, beq_false_of_ne h.symm]
    · rw [if_neg hp, List.lookup_cons, List.lookup_cons, ih]

theorem get?_set_self (props : Properties) (key : String) (v : Scalar) :
    (props.set key v).get? key = some v := by
  unfold get?
  induction props with
  | nil => rw [set, List.lookup_cons, beq_self_eq_true]
  | cons p rest ih =>
    rw [set]
    split
    · rw [List.lookup_cons, beq_self_eq_true]
    · next hne => rw [List.lookup_cons, beq_false_of_ne (Ne.symm hne), ih]

/-- What is set is found; the rest is as it was. -/
theorem get?_setAll {more : List (String × Scalar)} (h : (more.map Prod.fst).Nodup) :
    (props.setAll more).get? k = ((more.lookup k).or (props.get? k)) := by
  induction more generalizing props with
  | nil => rfl
  | cons p rest ih =>
    obtain ⟨key, v⟩ := p
    rw [List.map_cons, List.nodup_cons] at h
    show ((props.set key v).setAll rest).get? k = _
    rw [ih h.2, List.lookup_cons]
    by_cases hk : k = key
    · subst hk
      have hnone : rest.lookup k = none := List.lookup_eq_none_iff.mpr fun p hp =>
        bne_iff_ne.mpr fun heq => h.1 (List.mem_map.mpr ⟨p, hp, heq.symm⟩)
      rw [hnone, beq_self_eq_true, get?_set_self]
      rfl
    · rw [beq_false_of_ne hk, get?_set_of_ne (Ne.symm hk)]

theorem get?_set?_of_ne (h : key ≠ k) {o : Option Scalar} :
    (props.set? key o).get? k = props.get? k := by
  cases o with
  | none => rfl
  | some v => exact get?_set_of_ne h

end Properties

/-- Whether a property says where a node stands: its span, or the lines and columns of
its ends. -/
def isPositionKey (key : String) : Bool :=
  ["span_start", "span_length", "start_line", "start_column", "end_line", "end_column"].contains
    key

/-- **What a dialect has to say does not place the node.** -/
def Unplaced (described : List (String × Option Scalar)) : Prop :=
  ∀ p ∈ described, isPositionKey p.1 = false

theorem ne_of_isPositionKey {key k : String} (h : isPositionKey key = false)
    (hk : isPositionKey k = true) : key ≠ k := by
  rintro rfl
  rw [hk] at h
  cases h

/-- **Where a node stands is left as it was** by what a dialect has to say. -/
theorem Unplaced.get?_foldl {described : List (String × Option Scalar)} (h : Unplaced described)
    {key : String} (hkey : isPositionKey key = true) (props : Properties) :
    (described.foldl (fun props (k, v) => props.set? k v) props).get? key = props.get? key := by
  induction described generalizing props with
  | nil => rfl
  | cons p rest ih =>
    rw [List.foldl_cons, ih fun p hp => h p (List.mem_cons_of_mem _ hp)]
    exact Properties.get?_set?_of_ne (ne_of_isPositionKey (h p (List.mem_cons_self ..)) hkey)

/-- A span is read off two properties. -/
theorem ofTree_congr {t u : Tree} (hstart : t.get? "span_start" = u.get? "span_start")
    (hlength : t.get? "span_length" = u.get? "span_length") : ofTree t = ofTree u := by
  unfold ofTree
  rw [hstart, hlength]

/-- What a dialect has to say leaves the span of a node as it is. -/
theorem Unplaced.ofTree_foldl {kind : String} {props : Properties} {cs : List Tree}
    {described : List (String × Option Scalar)} (h : Unplaced described) :
    ofTree (.node kind (described.foldl (fun props (k, v) => props.set? k v) props) cs)
      = ofTree (.node kind props cs) :=
  ofTree_congr (h.get?_foldl rfl props) (h.get?_foldl rfl props)

theorem unplaced_of_keys {described : List (String × Option Scalar)}
    (h : (described.map Prod.fst).all (fun key => !isPositionKey key) = true) :
    Unplaced described := by
  rw [List.all_map, List.all_eq_true] at h
  exact fun p hp => Bool.not_eq_true' _ ▸ h p hp

theorem Unplaced.ite {c : Prop} [Decidable c] {a b : List (String × Option Scalar)}
    (ha : Unplaced a) (hb : Unplaced b) : Unplaced (if c then a else b) := by
  split
  · exact ha
  · exact hb

/-- What the dialect tells of markup does not place it. -/
theorem markup_unplaced (t : ParseTree) (src : Bytes) :
    Unplaced (Dialect.Markup.describe t src) := by
  unfold Dialect.Markup.describe
  repeat' refine .ite ?_ ?_
  all_goals exact unplaced_of_keys rfl

theorem csharp_call_unplaced (t : ParseTree) (src : Bytes) :
    Unplaced (Dialect.CSharp.describeCall t src) := by
  unfold Dialect.CSharp.describeCall
  dsimp only
  split
  · exact unplaced_of_keys rfl
  · repeat' refine .ite ?_ ?_
    all_goals exact unplaced_of_keys rfl

/-- **What the dialect tells of code does not place it.** -/
theorem csharp_unplaced (t : ParseTree) (src : Bytes) :
    Unplaced (Dialect.CSharp.describe t src) := by
  have hcall := csharp_call_unplaced t src
  unfold Dialect.CSharp.describe
  dsimp only
  repeat' refine .ite ?_ ?_
  all_goals first
    | exact hcall
    | exact unplaced_of_keys rfl
    | split <;> exact unplaced_of_keys rfl

/-! ## Nested trees -/

namespace ParseTree

mutual

/-- **Whether the children of every node stand in order inside it**: each begins no
earlier than the one before it ends. -/
def nested : ParseTree → Bool
  | .node head children => nestedAll head.start head.stop children

/-- Whether nested trees stand in order between two offsets. -/
def nestedAll (low high : Nat) : List ParseTree → Bool
  | [] => low ≤ high
  | t :: rest => low ≤ t.head.start && t.nested && nestedAll t.head.stop high rest

end

end ParseTree

/-- One node ends before another begins, and not before it begins itself. -/
def Precedes (a b : Tree) : Prop :=
  (ofTree a).start ≤ (ofTree a).stop ∧ (ofTree a).stop ≤ (ofTree b).start

/-- **A tree whose spans are in order**: those of siblings, at every node, those of a node and
its children, and the two ends of each. -/
structure Spanned (t : Tree) : Prop where
  precedes : t.Everywhere Precedes
  inside : ∀ u ∈ t.preorder, ∀ c ∈ u.children, (ofTree u).contains (ofTree c) = true
  le : ∀ u ∈ t.preorder, (ofTree u).start ≤ (ofTree u).stop

theorem Spanned.node {kind : String} {props : Properties} {cs : List Tree}
    (hcs : cs.Pairwise Precedes) (hbelow : ∀ c ∈ cs, Spanned c)
    (hinside : ∀ c ∈ cs, (ofTree (.node kind props cs)).contains (ofTree c) = true)
    (hle : (ofTree (.node kind props cs)).start ≤ (ofTree (.node kind props cs)).stop) :
    Spanned (.node kind props cs) := by
  refine ⟨Tree.everywhere_iff.mpr ⟨hcs, fun c hc => (hbelow c hc).precedes⟩, ?_, ?_⟩
  all_goals
    intro u hu
    rw [Tree.preorder_eq, List.mem_cons] at hu
    rcases hu with rfl | hu
  · exact hinside
  · obtain ⟨c, hc, hu⟩ := List.mem_flatMap.mp (Tree.preorderAll_eq_flatMap _ ▸ hu)
    exact (hbelow c hc).inside u hu
  · exact hle
  · obtain ⟨c, hc, hu⟩ := List.mem_flatMap.mp (Tree.preorderAll_eq_flatMap _ ▸ hu)
    exact (hbelow c hc).le u hu

/-- What lies below a spanned node is spanned. -/
theorem Spanned.of_mem {t u : Tree} (h : Spanned t) (hu : u ∈ t.preorder) : Spanned u :=
  ⟨fun v hv => h.precedes v (Tree.mem_preorder_trans hu hv),
    fun v hv => h.inside v (Tree.mem_preorder_trans hu hv),
    fun v hv => h.le v (Tree.mem_preorder_trans hu hv)⟩

/-- **Trees in order between two offsets.** -/
structure Ordered (low high : Int) (trees : List Tree) : Prop where
  le : low ≤ high
  precedes : trees.Pairwise Precedes
  bounds : ∀ t ∈ trees, low ≤ (ofTree t).start ∧ (ofTree t).start ≤ (ofTree t).stop
    ∧ (ofTree t).stop ≤ high
  below : ∀ t ∈ trees, Spanned t

theorem Ordered.cons {low mid high : Int} {t : Tree} {trees : List Tree}
    (h : Ordered mid high trees) (hlow : low ≤ (ofTree t).start)
    (hle : (ofTree t).start ≤ (ofTree t).stop) (hmid : (ofTree t).stop = mid)
    (ht : Spanned t) : Ordered low high (t :: trees) := by
  have hhigh := h.le
  refine ⟨by omega, .cons (fun u hu => ⟨hle, ?_⟩) h.precedes, ?_, ?_⟩
  · have := h.bounds u hu
    omega
  · refine List.forall_mem_cons.mpr ⟨by omega, fun u hu => ?_⟩
    have := h.bounds u hu
    omega
  · exact List.forall_mem_cons.mpr ⟨ht, h.below⟩

theorem Ordered.mono {low low' high : Int} {trees : List Tree} (h : Ordered low high trees)
    (hlow : low' ≤ low) : Ordered low' high trees := by
  have hle := h.le
  refine ⟨by omega, h.precedes, fun t ht => ?_, h.below⟩
  have := h.bounds t ht
  omega

namespace Conversion

variable {describe : Describe} {src : Bytes} {shift : Shift}

/-- **A converted node stands where the parse node does**, moved. -/
theorem get?_nodeProperties (hd : ∀ t, Unplaced (describe t src)) {key : String}
    (hkey : isPositionKey key = true) (t : ParseTree) :
    (nodeProperties describe src shift t).get? key
      = Properties.get? (spanProperties t.head shift) key := by
  unfold nodeProperties
  dsimp only
  split
  · rw [Properties.get?_set_of_ne (ne_of_isPositionKey rfl hkey), (hd t).get?_foldl hkey]
  · rw [(hd t).get?_foldl hkey]

/-- **Where a converted node stands** is told by its parse node alone. -/
theorem get?_below (hd : ∀ t, Unplaced (describe t src)) {key : String}
    (hkey : isPositionKey key = true) (e : Bool) (t : ParseTree) :
    (below describe src shift e t).root.get? key
      = Properties.get? (spanProperties t.head shift) key := by
  cases t with
  | node head children =>
    unfold below
    dsimp only [Tree.get?, Tree.properties]
    split
    · rw [Properties.get?_set_of_ne (ne_of_isPositionKey rfl hkey), get?_nodeProperties hd hkey]
    · rw [get?_nodeProperties hd hkey]

/-- The span of a parse node, moved. -/
theorem ofTree_of_spanProperties {u : Tree} {n : ParseNode}
    (h : ∀ key, isPositionKey key = true →
      u.get? key = Properties.get? (spanProperties n shift) key) :
    ofTree u = ⟨n.start + shift.byte, n.stop + shift.byte⟩ := by
  rw [ofTree_congr (u := .node "" (spanProperties n shift) []) (h _ rfl) (h _ rfl)]
  show (⟨_, n.start + shift.byte + (n.stop - n.start)⟩ : Span) = _
  congr 1
  omega

/-- The span of a node is that of its parse node, moved. -/
theorem ofTree_nodeProperties (hd : ∀ t, Unplaced (describe t src)) (kind : String)
    (t : ParseTree) (cs : List Tree) :
    ofTree (.node kind (nodeProperties describe src shift t) cs)
      = ⟨t.head.start + shift.byte, t.head.stop + shift.byte⟩ :=
  ofTree_of_spanProperties fun _ hkey => get?_nodeProperties hd hkey t

/-- **The span of a converted node** is that of its parse node, moved. -/
theorem ofTree_below (hd : ∀ t, Unplaced (describe t src)) (e : Bool) (t : ParseTree) :
    ofTree (below describe src shift e t).root
      = ⟨t.head.start + shift.byte, t.head.stop + shift.byte⟩ :=
  ofTree_of_spanProperties fun _ hkey => get?_below hd hkey e t

mutual

/-- **A nested parse tree is converted to a spanned tree.** -/
theorem below_ordered (hd : ∀ t, Unplaced (describe t src)) (e : Bool) :
    ∀ t : ParseTree, t.nested = true → Spanned (below describe src shift e t).root
  | .node head children => by
    intro h
    have hall := allBelow_ordered hd (e || head.error) children head.start head.stop h
    have hspan : ofTree (below describe src shift e (.node head children)).root
        = ⟨head.start + shift.byte, head.stop + shift.byte⟩ := ofTree_below hd e _
    unfold below at hspan
    refine .node hall.precedes hall.below (fun c hc => ?_) ?_
    · rw [hspan, Span.contains_iff]
      have := hall.bounds c hc
      exact ⟨this.1, this.2.2⟩
    · rw [hspan]
      exact hall.le

/-- The conversions of nested siblings stand in order between the same bounds, moved. -/
theorem allBelow_ordered (hd : ∀ t, Unplaced (describe t src)) (e : Bool) :
    ∀ (ts : List ParseTree) (low high : Nat), ParseTree.nestedAll low high ts = true →
      Ordered (low + shift.byte) (high + shift.byte) (allBelow describe src shift e ts).1
  | [] => by
    intro low high h
    rw [ParseTree.nestedAll, decide_eq_true_iff] at h
    exact ⟨by omega, .nil, fun _ ht => (nomatch ht), fun _ ht => (nomatch ht)⟩
  | .node head children :: rest => by
    intro low high h
    rw [ParseTree.nestedAll, Bool.and_eq_true, Bool.and_eq_true, decide_eq_true_iff] at h
    change (low ≤ head.start ∧ _) ∧ _ at h
    obtain ⟨⟨hlow, hself⟩, hrest⟩ := h
    have hinner := allBelow_ordered hd false children head.start head.stop hself
    have hle := hinner.le
    have htail := allBelow_ordered hd e rest head.stop high hrest
    have hnode := below_ordered hd e (.node head children) hself
    unfold allBelow
    dsimp only
    split
    · refine htail.cons ?_ ?_ ?_ hnode <;> rw [ofTree_below hd] <;> simp only [ParseTree.head] <;>
        omega
    · exact htail.mono (by omega)

end

end Conversion

/-- **The spans of a converted tree are in order.** -/
theorem ParseTree.convert_spanned {t : ParseTree} {src : Bytes} {describe : Describe}
    {shift : Shift} {rootKind : Option String} (hd : ∀ t, Unplaced (describe t src))
    (h : t.nested = true) : Spanned (t.convert src describe shift rootKind).root := by
  cases t with
  | node head children =>
    have hall : Ordered (head.start + shift.byte) (head.stop + shift.byte)
        (Conversion.allBelow describe src shift head.error children).1 :=
      Conversion.allBelow_ordered hd head.error children head.start head.stop h
    refine .node hall.precedes hall.below (fun c hc => ?_) ?_
    · rw [Conversion.ofTree_nodeProperties hd, Span.contains_iff]
      have := hall.bounds c hc
      exact ⟨this.1, this.2.2⟩
    · rw [Conversion.ofTree_nodeProperties hd]
      exact hall.le

namespace Template

/-! ## The nodes of constructs -/

variable {parse : Parse} {src : Bytes} {scanned : List Segment} {lines : LineIndex}

/-- What a construct shows does not place it. -/
theorem Construct.properties_unplaced (c : Construct) :
    Unplaced (c.properties.map fun (k, v) => (k, v.map Scalar.text)) := by
  refine unplaced_of_keys ?_
  rcases c with _ | (_ | _) | _ | _ | _ | ⟨_, _ | _⟩ | _ <;> rfl

/-- No construct makes a text. -/
theorem Construct.kind_ne_text (c : Construct) : c.kind ≠ "Text" := by
  cases c <;> simp [Construct.kind]

/-- No construct makes the root of a template. -/
theorem Construct.kind_ne_rootKind (c : Construct) : c.kind ≠ rootKind := by
  cases c <;> simp [Construct.kind, rootKind]

/-- **What the parsers of the markup and the code answer** for a template: nested
trees, whose code lies inside the part that it was read from. -/
structure RecordedNested (parse : Parse) (src : Bytes) (scanned : List Segment) : Prop where
  markup : ∀ t, parse markupGrammar (markupView src scanned) = .ok t → t.nested = true
  code : ∀ s ∈ allSegments scanned, ∀ v ∈ codeViews src s, ∀ t,
    parse codeGrammar v.text = .ok t → t.nested = true
  inside : ∀ s ∈ allSegments scanned, ∀ v ∈ codeViews src s, ∀ trees count bytes,
    parseCode parse (LineIndex.ofSource src) v = .ok (trees, count, bytes) →
      ∀ u ∈ trees, v.part.start ≤ (ofTree u).start ∧ (ofTree u).stop ≤ v.part.stop

end Template

end SyntaxForest
