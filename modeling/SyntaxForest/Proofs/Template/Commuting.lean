import SyntaxForest.Proofs.Template.Agreement

/-!
# Two insertions, in either order

Two nodes with a gap between their spans are inserted into a tree, one after the other. Each goes
down to where its span is at home. As long as the two end among the children of different nodes, no
order shows: what the one does is no step of the other's way, and a child that the other went into
stays among the children of the node it was a child of (`insertAmong_around`). They meet if they
end among the children of one node (`meeting?`), and there the order shows exactly if they do not
agree on these children (`insert_comm_iff`).

So insertions do not commute in general (`insert_not_comm`), and they do in a tree whose siblings
are in order and whose texts end before the next sibling begins.
-/

namespace SyntaxForest.Template

open SyntaxForest.Template.Span (ofTree)
open SyntaxForest.Tree (preorderAll Everywhere)

variable {s : Source} {a b span : Span} {t u c v root : Tree} {cs before after : List Tree}
variable {meet : Option (List Tree)}

/-! ## The children of one node -/

/-- The first of several nodes that contains a span, if one does. -/
theorem none_or_first_container (span : Span) (cs : List Tree) :
    (∀ c ∈ cs, isContainer span c = false)
      ∨ ∃ before c after, cs = before ++ c :: after
        ∧ (∀ b ∈ before, isContainer span b = false) ∧ isContainer span c = true := by
  cases hfind : cs.find? (isContainer span) with
  | none => exact .inl fun c hc => eq_false_of_ne_true (List.find?_eq_none.mp hfind c hc)
  | some c =>
    obtain ⟨hc, before, after, rfl, hbefore⟩ := List.find?_eq_some_iff_append.mp hfind
    exact .inr ⟨before, c, after, rfl, fun b hb => by simpa using hbefore b hb, hc⟩

/-- The children of a node after an insertion. -/
def insertIn (s : Source) (t : Tree) (cs : List Tree) : List Tree :=
  (insertBelow? s t cs).getD (insertAmong s t cs)

/-- Where no sibling holds the node it comes among them. -/
theorem insertIn_of_none (hnone : ∀ c ∈ cs, isContainer (ofTree t) c = false) :
    insertIn s t cs = insertAmong s t cs := by
  have hbelow : insertBelow? s t cs = none := by
    induction cs with
    | nil => rfl
    | cons c cs ih =>
      obtain ⟨hc, hcs⟩ := List.forall_mem_cons.mp hnone
      rw [insertBelow?, if_neg (Bool.eq_false_iff.mp hc), ih hcs]
      rfl
  rw [insertIn, hbelow]
  rfl

/-- The first sibling that holds the node takes it. -/
theorem insertIn_of_container (hnone : ∀ b ∈ before, isContainer (ofTree t) b = false)
    (hc : isContainer (ofTree t) c = true) :
    insertIn s t (before ++ c :: after) = before ++ insert s t c :: after := by
  have hbelow : insertBelow? s t (before ++ c :: after)
      = some (before ++ insert s t c :: after) := by
    induction before with
    | nil => rw [List.nil_append, insertBelow?, if_pos hc]; rfl
    | cons b before ih =>
      obtain ⟨hb, hbefore⟩ := List.forall_mem_cons.mp hnone
      rw [List.cons_append, insertBelow?, if_neg (Bool.eq_false_iff.mp hb), ih hbefore]
      rfl
  rw [insertIn, hbelow]
  rfl

/-- The first container may stand behind another node. -/
theorem insertIn_beyond {mid : List Tree}
    (hnone : ∀ b ∈ before, isContainer (ofTree t) b = false)
    (hv : isContainer (ofTree t) v = false) (hmid : ∀ b ∈ mid, isContainer (ofTree t) b = false)
    (hc : isContainer (ofTree t) c = true) : insertIn s t (before ++ v :: (mid ++ c :: after))
      = before ++ v :: (mid ++ insert s t c :: after) := by
  have hfront : ∀ b ∈ before ++ v :: mid, isContainer (ofTree t) b = false :=
    List.forall_mem_append.mpr ⟨hnone, List.forall_mem_cons.mpr ⟨hv, hmid⟩⟩
  have hin : insertIn s t ((before ++ v :: mid) ++ c :: after)
      = (before ++ v :: mid) ++ insert s t c :: after := insertIn_of_container hfront hc
  rwa [List.append_assoc, List.append_assoc] at hin

/-- **A node into which another is inserted** contains what it contained. -/
theorem insert_isContainer (hc : isContainer (ofTree t) c = true) (span : Span) :
    isContainer span (insert s t c) = isContainer span c :=
  (insert_atHome s t c).isContainer_eq hc (insertAmong_ne_nil _ _ _)

/-! ## What an insertion among siblings leaves -/

theorem isContainer_of_mem_outsideOf (hcut : (ofTree t).start ≤ (ofTree t).stop)
    (hnone : ∀ c ∈ cs, isContainer span c = false) (hv : v ∈ outsideOf s t cs) :
    isContainer span v = false := by
  rcases mem_or_isTextLeaf_of_outsideOf hcut hv with hv | hleaf
  · exact hnone v hv
  · exact isContainer_of_isTextLeaf hleaf

theorem isContainer_wholeOf (hout : (ofTree t).contains span = false) :
    isContainer span (wholeOf s t cs) = false := by
  rw [isContainer, wholeOf_span, hout, Bool.and_false]

/-- An insertion among siblings that do not hold a span makes none that does. -/
theorem isContainer_of_mem_insertAmong (hcut : (ofTree t).start ≤ (ofTree t).stop)
    (hout : (ofTree t).contains span = false) (hnone : ∀ c ∈ cs, isContainer span c = false)
    (hv : v ∈ insertAmong s t cs) : isContainer span v = false := by
  rcases mem_insertAmong hv with rfl | hv
  · exact isContainer_wholeOf hout
  · exact isContainer_of_mem_outsideOf hcut hnone hv

/-- An insertion puts the node with what it takes over among what it leaves outside. -/
theorem insertAmong_eq_insertByStart (s : Source) (t : Tree) (cs : List Tree) :
    insertAmong s t cs = insertByStart (wholeOf s t cs) (outsideOf s t cs) := by
  rw [insertByStart_eq, wholeOf_span]
  rfl

/-- A node is put before or behind another, whatever this one holds. -/
theorem insertByStart_around (t : Tree) (low : Int) (before after : List Tree) :
    ∃ pre post, (∀ v, (ofTree v).start = low →
        insertByStart t (before ++ v :: after) = pre ++ v :: post)
      ∧ ∀ b ∈ pre, b = t ∨ b ∈ before := by
  induction before with
  | nil =>
    by_cases hlow : (ofTree t).start ≤ low
    · refine ⟨[t], after, fun v hv => ?_, by simp⟩
      rw [List.nil_append, insertByStart, if_pos (hv ▸ hlow)]
      rfl
    · refine ⟨[], insertByStart t after, fun v hv => ?_, by simp⟩
      rw [List.nil_append, insertByStart, if_neg (hv ▸ hlow)]
      rfl
  | cons c before ih =>
    by_cases hc : (ofTree t).start ≤ (ofTree c).start
    · refine ⟨t :: c :: before, after, fun v _ => ?_, fun b hb => List.mem_cons.mp hb⟩
      rw [List.cons_append, insertByStart, if_pos hc]
      rfl
    · obtain ⟨pre, post, hstand, hpre⟩ := ih
      refine ⟨c :: pre, post, fun v hv => ?_, fun b hb => ?_⟩
      · rw [List.cons_append, insertByStart, if_neg hc, hstand v hv]
        rfl
      · rcases List.mem_cons.mp hb with rfl | hb
        · exact .inr List.mem_cons_self
        · exact (hpre b hb).imp_right (List.mem_cons_of_mem _)

/-- **A sibling that is no text and lies outside an inserted node** stays where it is, whatever it
holds. -/
theorem insertAmong_around (hleaf : isTextLeaf c = false)
    (hout : (ofTree t).contains (ofTree c) = false) (before after : List Tree) :
    ∃ pre post, (∀ v, ofTree v = ofTree c → isTextLeaf v = false →
        insertAmong s t (before ++ v :: after) = pre ++ v :: post)
      ∧ ∀ b ∈ pre, b = wholeOf s t (before ++ c :: after) ∨ b ∈ outsideOf s t before := by
  obtain ⟨pre, post, hstand, hpre⟩ := insertByStart_around (wholeOf s t (before ++ c :: after))
    (ofTree c).start (outsideOf s t before) (outsideOf s t after)
  refine ⟨pre, post, fun v hv hvleaf => ?_, hpre⟩
  have hv' : Bystander s t v := ⟨cutAt_of_not_isTextLeaf hvleaf, by rwa [hv]⟩
  have hc' : Bystander s t c := ⟨cutAt_of_not_isTextLeaf hleaf, hout⟩
  have hwhole : wholeOf s t (before ++ v :: after) = wholeOf s t (before ++ c :: after) := by
    rw [wholeOf, wholeOf, insideOf_append, insideOf_append, hv'.insideOf_cons, hc'.insideOf_cons]
  rw [insertAmong_eq_insertByStart, outsideOf_append, hv'.outsideOf_cons, hwhole,
    hstand v (by rw [hv])]

/-- **What an insertion makes of the siblings before a container** of another span contains that
span no more than they did. -/
theorem insertAmong_container (hcut : (ofTree t).start ≤ (ofTree t).stop)
    (hout : (ofTree t).contains span = false) (hnone : ∀ b ∈ before, isContainer span b = false)
    (hc : isContainer span c = true) (after : List Tree) :
    ∃ pre post, (∀ b ∈ pre, isContainer span b = false) ∧
      ∀ v, ofTree v = ofTree c → isTextLeaf v = false →
        insertAmong s t (before ++ v :: after) = pre ++ v :: post := by
  have hout' : (ofTree t).contains (ofTree c) = false := by
    rw [Bool.eq_false_iff] at hout ⊢
    exact fun h => hout (Span.contains_trans h (Span.contains_iff.mpr (isContainer_iff.mp hc).2))
  obtain ⟨pre, post, hstand, hpre⟩ :=
    insertAmong_around (s := s) (isContainer_iff.mp hc).1 hout' before after
  refine ⟨pre, post, fun b hb => ?_, hstand⟩
  rcases hpre b hb with rfl | hb
  · exact isContainer_wholeOf hout
  · exact isContainer_of_mem_outsideOf hcut hnone hb

/-! ## Ways that part, and ways that meet -/

mutual

/-- **The children among which two spans are both at home**, if the ways down to them do not
part. -/
def meeting? (a b : Span) : Tree → Option (List Tree)
  | .node _ _ children => (meetingBelow? a b children).getD (some children)

/-- Where two ways meet from the first of several nodes on that contains one of the spans, if one
does. They part if it contains only one. -/
def meetingBelow? (a b : Span) : List Tree → Option (Option (List Tree))
  | [] => none
  | c :: rest =>
    if isContainer a c || isContainer b c then
      some (if isContainer a c && isContainer b c then meeting? a b c else none)
    else meetingBelow? a b rest

end

theorem meetingBelow?_eq (a b : Span) (cs : List Tree) : meetingBelow? a b cs
    = (cs.find? fun c => isContainer a c || isContainer b c).map fun c =>
      if isContainer a c && isContainer b c then meeting? a b c else none := by
  induction cs with
  | nil => rfl
  | cons c rest ih =>
    rw [meetingBelow?, List.find?_cons]
    cases isContainer a c || isContainer b c with
    | true => rfl
    | false => exact ih

/-- Neither of two spans lies in one of several nodes, or the node is a text. -/
def Neither (a b : Span) (cs : List Tree) : Prop :=
  ∀ c ∈ cs, isContainer a c = false ∧ isContainer b c = false

/-- **The ways of two spans** down a tree, and the children among which they meet. -/
inductive Ways (a b : Span) : Tree → Option (List Tree) → Prop
  | home {kind : String} {props : Properties} {cs : List Tree} (hnone : Neither a b cs) :
      Ways a b (.node kind props cs) (some cs)
  | left {kind : String} {props : Properties} {before after : List Tree} {c : Tree}
      (hnone : Neither a b before) (ha : isContainer a c = true) (hb : isContainer b c = false) :
      Ways a b (.node kind props (before ++ c :: after)) none
  | right {kind : String} {props : Properties} {before after : List Tree} {c : Tree}
      (hnone : Neither a b before) (ha : isContainer a c = false) (hb : isContainer b c = true) :
      Ways a b (.node kind props (before ++ c :: after)) none
  | under {kind : String} {props : Properties} {before after : List Tree} {c : Tree}
      {meet : Option (List Tree)} (hnone : Neither a b before) (ha : isContainer a c = true)
      (hb : isContainer b c = true) (hin : Ways a b c meet) :
      Ways a b (.node kind props (before ++ c :: after)) meet

/-- **Where the ways of two spans meet** is what `meeting?` finds. -/
theorem ways_meeting? (a b : Span) (root : Tree) : Ways a b root (meeting? a b root) := by
  induction root using Tree.childrenInduction with
  | h t ih =>
    obtain ⟨kind, props, cs⟩ := t
    rw [meeting?, meetingBelow?_eq]
    cases hfind : cs.find? fun c => isContainer a c || isContainer b c with
    | none =>
      exact .home fun c hc => by simpa using List.find?_eq_none.mp hfind c hc
    | some c =>
      obtain ⟨hc, before, after, rfl, hbefore⟩ := List.find?_eq_some_iff_append.mp hfind
      have hnone : Neither a b before := fun x hx => by simpa using hbefore x hx
      rw [Option.map_some, Option.getD_some]
      cases ha : isContainer a c <;> cases hb : isContainer b c
      · rw [ha, hb] at hc
        cases hc
      · exact .right hnone ha hb
      · exact .left hnone ha hb
      · exact .under hnone ha hb (ih c (List.mem_append_right _ List.mem_cons_self))

theorem Neither.symm (h : Neither a b cs) : Neither b a cs := fun c hc => (h c hc).symm

theorem Neither.left (h : Neither a b cs) : ∀ c ∈ cs, isContainer a c = false :=
  fun c hc => (h c hc).1

theorem Neither.right (h : Neither a b cs) : ∀ c ∈ cs, isContainer b c = false :=
  fun c hc => (h c hc).2

theorem Ways.symm (h : Ways a b root meet) : Ways b a root meet := by
  induction h with
  | home hnone => exact .home hnone.symm
  | left hnone ha hb => exact .right hnone.symm hb ha
  | right hnone ha hb => exact .left hnone.symm hb ha
  | under hnone ha hb _ ih => exact .under hnone.symm hb ha ih

theorem mem_preorder_of_child {kind : String} {props : Properties} (hc : c ∈ cs)
    (hv : v ∈ c.preorder) : v ∈ (Tree.node kind props cs).preorder := by
  rw [Tree.preorder_eq, List.mem_cons]
  exact .inr (Tree.mem_preorderAll_of_preorder (Tree.mem_preorderAll_of_mem hc) hv)

/-- Where two ways meet there are the children of a node. -/
theorem Ways.exists_children (h : Ways a b root meet) (hmeet : cs ∈ meet) :
    ∃ v ∈ root.preorder, v.children = cs := by
  induction h with
  | home hnone =>
    obtain rfl := Option.some.inj hmeet
    exact ⟨_, Tree.mem_preorder_self _, rfl⟩
  | left | right => cases hmeet
  | under _ _ _ _ ih =>
    obtain ⟨v, hv, hchildren⟩ := ih hmeet
    exact ⟨v, mem_preorder_of_child (List.mem_append_right _ List.mem_cons_self) hv, hchildren⟩

/-! ## Both orders -/

/-- **Where the ways part** no order shows. -/
theorem insertIn_comm_of_container (hcut : (ofTree u).start ≤ (ofTree u).stop)
    (hout : (ofTree u).contains (ofTree t) = false) (hnone : Neither (ofTree t) (ofTree u) before)
    (ht : isContainer (ofTree t) c = true) (hu : isContainer (ofTree u) c = false) :
    insertIn s u (insertIn s t (before ++ c :: after))
      = insertIn s t (insertIn s u (before ++ c :: after)) := by
  have hc : isTextLeaf c = false := (isContainer_iff.mp ht).1
  have hat := insert_atHome s t c
  have hu' : isContainer (ofTree u) (insert s t c) = false :=
    (insert_isContainer ht (ofTree u)).trans hu
  rw [insertIn_of_container hnone.left ht]
  rcases none_or_first_container (ofTree u) after with hafter | ⟨mid, y, rest, rfl, hmid, hy⟩
  · have hnone' : ∀ v, isContainer (ofTree u) v = false →
        ∀ x ∈ before ++ v :: after, isContainer (ofTree u) x = false := fun v hv =>
      List.forall_mem_append.mpr ⟨hnone.right, List.forall_mem_cons.mpr ⟨hv, hafter⟩⟩
    obtain ⟨pre, post, hpre, hstand⟩ :=
      insertAmong_container (s := s) hcut hout hnone.left ht after
    rw [insertIn_of_none (hnone' _ hu'), insertIn_of_none (hnone' c hu), hstand c rfl hc,
      hstand _ hat.ofTree_eq (hat.not_isTextLeaf (insertAmong_ne_nil _ _ _)),
      insertIn_of_container hpre ht]
  · rw [insertIn_beyond hnone.right hu' hmid hy, insertIn_beyond hnone.right hu hmid hy,
      insertIn_of_container hnone.left ht]

/-- **Two insertions commute** exactly if the nodes agree on the children among which they meet. -/
theorem Ways.comm_iff (hw : Ways (ofTree t) (ofTree u) root meet) (h : Pair t u)
    (hroot : ∀ x ∈ root.preorder, AsCut s x) :
    insert s u (insert s t root) = insert s t (insert s u root)
      ↔ ∀ cs ∈ meet, Agree s t u cs := by
  have hleft := Int.le_of_lt h.left_nonempty
  have hright := Int.le_of_lt h.right_nonempty
  induction hw with
  | @home kind props cs hnone =>
    have hcs : AllCut s cs := fun x hx =>
      hroot x (mem_preorder_of_child hx x.mem_preorder_self)
    have htu : ∀ x ∈ insertAmong s t cs, isContainer (ofTree u) x = false := fun x hx =>
      isContainer_of_mem_insertAmong hleft h.apart.not_contains hnone.right hx
    have hut : ∀ x ∈ insertAmong s u cs, isContainer (ofTree t) x = false := fun x hx =>
      isContainer_of_mem_insertAmong hright h.apart.symm.not_contains hnone.left hx
    show Tree.node kind props (insertIn s u (insertIn s t cs))
      = Tree.node kind props (insertIn s t (insertIn s u cs)) ↔ _
    rw [insertIn_of_none hnone.left, insertIn_of_none hnone.right, insertIn_of_none htu,
      insertIn_of_none hut, Tree.node.injEq]
    simp only [true_and, Option.mem_some_iff, forall_eq']
    exact h.insertAmong_comm_iff hcs
  | @left kind props before after c hnone ht hu =>
    refine iff_of_true (congrArg (Tree.node kind props) ?_) fun _ hmeet => absurd hmeet (Option.not_mem_none _)
    exact insertIn_comm_of_container hright h.apart.symm.not_contains hnone ht hu
  | @right kind props before after c hnone ht hu =>
    refine iff_of_true (congrArg (Tree.node kind props) ?_) fun _ hmeet => absurd hmeet (Option.not_mem_none _)
    exact (insertIn_comm_of_container hleft h.apart.not_contains hnone.symm hu ht).symm
  | @under kind props before after c meet hnone ht hu _ ih =>
    have hc : ∀ x ∈ c.preorder, AsCut s x := fun x hx =>
      hroot x (mem_preorder_of_child (List.mem_append_right _ List.mem_cons_self) hx)
    show Tree.node kind props (insertIn s u (insertIn s t (before ++ c :: after)))
      = Tree.node kind props (insertIn s t (insertIn s u (before ++ c :: after))) ↔ _
    rw [insertIn_of_container hnone.left ht, insertIn_of_container hnone.right hu,
      insertIn_of_container hnone.right ((insert_isContainer ht _).trans hu),
      insertIn_of_container hnone.left ((insert_isContainer hu _).trans ht), Tree.node.injEq,
      List.append_cancel_left_eq, List.cons.injEq]
    simp only [true_and, and_true]
    exact ih hc

/-! ## Both orders answer -/

/-- Whether a cut among the children of a node would read beyond the source. -/
def overrunsIn (s : Source) (span : Span) (cs : List Tree) : Bool :=
  (overrunsBelow? s span cs).getD (cs.any (cutsOutside s span))

/-- Where no sibling holds the span, it overruns if a text among them is cut outside. -/
theorem overrunsIn_of_none (hnone : ∀ c ∈ cs, isContainer span c = false) :
    overrunsIn s span cs = cs.any (cutsOutside s span) := by
  have hbelow : overrunsBelow? s span cs = none := by
    induction cs with
    | nil => rfl
    | cons c cs ih =>
      obtain ⟨hc, hcs⟩ := List.forall_mem_cons.mp hnone
      rw [overrunsBelow?, if_neg (Bool.eq_false_iff.mp hc), ih hcs]
  rw [overrunsIn, hbelow]
  rfl

/-- The first sibling that holds the span decides whether it overruns. -/
theorem overrunsIn_of_container (hnone : ∀ b ∈ before, isContainer span b = false)
    (hc : isContainer span c = true) : overrunsIn s span (before ++ c :: after)
      = overruns s span c := by
  have hbelow : overrunsBelow? s span (before ++ c :: after) = some (overruns s span c) := by
    induction before with
    | nil => rw [List.nil_append, overrunsBelow?, if_pos hc]
    | cons b before ih =>
      obtain ⟨hb, hbefore⟩ := List.forall_mem_cons.mp hnone
      rw [List.cons_append, overrunsBelow?, if_neg (Bool.eq_false_iff.mp hb), ih hbefore]
  rw [overrunsIn, hbelow]
  rfl

theorem overrunsIn_beyond {mid : List Tree} (hnone : ∀ b ∈ before, isContainer span b = false)
    (hv : isContainer span v = false) (hmid : ∀ b ∈ mid, isContainer span b = false)
    (hc : isContainer span c = true) :
    overrunsIn s span (before ++ v :: (mid ++ c :: after)) = overruns s span c := by
  have hfront : ∀ b ∈ before ++ v :: mid, isContainer span b = false :=
    List.forall_mem_append.mpr ⟨hnone, List.forall_mem_cons.mpr ⟨hv, hmid⟩⟩
  have hin : overrunsIn s span ((before ++ v :: mid) ++ c :: after) = overruns s span c :=
    overrunsIn_of_container hfront hc
  rwa [List.append_assoc] at hin

theorem cutsOutside_of_not_isTextLeaf (hleaf : isTextLeaf v = false) :
    cutsOutside s span v = false := by
  rw [cutsOutside, hleaf]
  rfl

/-- A piece of a text reads beyond the source only if the text does. -/
theorem cutsOutside_of_mem_insertAmong (hcut : (ofTree t).start ≤ (ofTree t).stop)
    (hleaf : isTextLeaf t = false) (hcs : ∀ c ∈ cs, cutsOutside s span c = false)
    (hv : v ∈ insertAmong s t cs) : cutsOutside s span v = false := by
  rcases mem_insertAmong hv with rfl | hv
  · exact cutsOutside_of_not_isTextLeaf (wholeOf_not_isTextLeaf hleaf)
  · obtain ⟨⟨c, hc, hvc⟩, -⟩ := mem_outsideOf.mp hv
    have hinside := contains_of_mem_cutAt hcut hvc
    have hc := hcs c hc
    rcases mem_cutAt hcut hvc with ⟨rfl, -⟩ | ⟨hcleaf, -⟩
    · exact hc
    · rw [Bool.eq_false_iff] at hc ⊢
      refine fun hover => hc ?_
      unfold cutsOutside at hover ⊢
      simp only [Bool.and_eq_true, decide_eq_true_iff] at hover ⊢
      refine ⟨⟨hcleaf, Span.whole_overlaps hinside hover.1.2⟩, ?_⟩
      exact Int.lt_of_lt_of_le hover.2 (Span.contains_iff.mp hinside).2

/-- **An insertion leaves another within the source.** -/
theorem Ways.overruns_insert (hw : Ways (ofTree t) span root meet)
    (hcut : (ofTree t).start ≤ (ofTree t).stop) (hleaf : isTextLeaf t = false)
    (hout : (ofTree t).contains span = false) (h : overruns s span root = false) :
    overruns s span (insert s t root) = false := by
  induction hw with
  | @home kind props cs hnone =>
    change overrunsIn s span cs = false at h
    show overrunsIn s span (insertIn s t cs) = false
    rw [overrunsIn_of_none hnone.right, List.any_eq_false] at h
    rw [insertIn_of_none hnone.left, overrunsIn_of_none fun x hx =>
      isContainer_of_mem_insertAmong hcut hout hnone.right hx, List.any_eq_false]
    exact fun x hx => Bool.eq_false_iff.mp <| cutsOutside_of_mem_insertAmong hcut hleaf
      (fun c hc => eq_false_of_ne_true (h c hc)) hx
  | @left kind props before after c hnone ht hspan =>
    change overrunsIn s span (before ++ c :: after) = false at h
    show overrunsIn s span (insertIn s t (before ++ c :: after)) = false
    have hspan' : isContainer span (insert s t c) = false :=
      (insert_isContainer ht span).trans hspan
    rw [insertIn_of_container hnone.left ht]
    rcases none_or_first_container span after with hafter | ⟨mid, y, rest, rfl, hmid, hy⟩
    · have hnone' : ∀ v, isContainer span v = false →
          ∀ x ∈ before ++ v :: after, isContainer span x = false := fun v hv =>
        List.forall_mem_append.mpr ⟨hnone.right, List.forall_mem_cons.mpr ⟨hv, hafter⟩⟩
      have hc : cutsOutside s span (insert s t c) = false := cutsOutside_of_not_isTextLeaf
        ((insert_atHome s t c).not_isTextLeaf (insertAmong_ne_nil _ _ _))
      rw [overrunsIn_of_none (hnone' c hspan), List.any_append, List.any_cons,
        Bool.or_eq_false_iff, Bool.or_eq_false_iff] at h
      rw [overrunsIn_of_none (hnone' _ hspan'), List.any_append, List.any_cons, hc, h.1, h.2.2]
      rfl
    · rw [overrunsIn_beyond hnone.right hspan hmid hy] at h
      rwa [overrunsIn_beyond hnone.right hspan' hmid hy]
  | @right kind props before after c hnone ht hspan =>
    change overrunsIn s span (before ++ c :: after) = false at h
    show overrunsIn s span (insertIn s t (before ++ c :: after)) = false
    rw [overrunsIn_of_container hnone.right hspan] at h
    rcases none_or_first_container (ofTree t) after with hafter | ⟨mid, y, rest, rfl, hmid, hy⟩
    · obtain ⟨pre, post, hpre, hstand⟩ :=
        insertAmong_container (s := s) hcut hout hnone.right hspan after
      rw [insertIn_of_none (List.forall_mem_append.mpr
        ⟨hnone.left, List.forall_mem_cons.mpr ⟨ht, hafter⟩⟩),
        hstand c rfl (isContainer_iff.mp hspan).1, overrunsIn_of_container hpre hspan]
      exact h
    · rwa [insertIn_beyond hnone.left ht hmid hy, overrunsIn_of_container hnone.right hspan]
  | @under kind props before after c meet hnone ht hspan _ ih =>
    change overrunsIn s span (before ++ c :: after) = false at h
    show overrunsIn s span (insertIn s t (before ++ c :: after)) = false
    rw [overrunsIn_of_container hnone.right hspan] at h
    rw [insertIn_of_container hnone.left ht,
      overrunsIn_of_container hnone.right ((insert_isContainer ht _).trans hspan)]
    exact ih h

/-- **Two insertions, in either order.** Both orders answer, and they give the same tree exactly if
the nodes agree on the children among which they meet. They do where siblings are in order, every
text ends before the next sibling begins, and no length is negative. -/
theorem insert_comm_iff (h : Pair t u) (hroot : ∀ x ∈ root.preorder, AsCut s x) :
    (insert? s t root >>= insert? s u) = .ok (insert s u (insert s t root))
      ∧ (insert? s u root >>= insert? s t) = .ok (insert s t (insert s u root))
      ∧ (insert s u (insert s t root) = insert s t (insert s u root)
        ↔ ∀ cs ∈ meeting? (ofTree t) (ofTree u) root, Agree s t u cs)
      ∧ ((∀ v ∈ root.preorder, v.children.Pairwise StartsBefore ∧ v.children.IsChain Clears
          ∧ (ofTree v).start ≤ (ofTree v).stop) →
        insert s u (insert s t root) = insert s t (insert s u root)) := by
  have hw := ways_meeting? (ofTree t) (ofTree u) root
  have hiff := hw.comm_iff h hroot
  have hends : ∀ span, overruns s span root = false := fun span =>
    overruns_eq_false s span fun x hx hleaf => (hroot x (Tree.mem_preorder_of_below hx) hleaf).1
  refine ⟨?_, ?_, hiff, fun hordered => hiff.mpr fun cs hcs => ?_⟩
  · rw [insert?, hends, if_neg Bool.false_ne_true]
    show insert? s u (insert s t root) = _
    rw [insert?, hw.overruns_insert (Int.le_of_lt h.left_nonempty) h.left h.apart.not_contains
      (hends _), if_neg Bool.false_ne_true]
  · rw [insert?, hends, if_neg Bool.false_ne_true]
    show insert? s t (insert s u root) = _
    rw [insert?, hw.symm.overruns_insert (Int.le_of_lt h.right_nonempty) h.right
      h.apart.symm.not_contains (hends _), if_neg Bool.false_ne_true]
  · obtain ⟨v, hv, rfl⟩ := hw.exists_children hcs
    obtain ⟨hord, hclear, -⟩ := hordered v hv
    refine h.agree_of_clears hord hclear fun x hx => (hordered x ?_).2.2
    exact Tree.mem_preorder_trans hv
      (Tree.mem_preorder_of_below (Tree.mem_preorderAll_of_mem hx))

/-- A document that is one text, `abcd <b/> ef`. -/
def wordsRoot : Tree := spannedNode "Document" 0 12 [textLeaf sampleSource 0 12]

def wordsLeft : Tree := spannedNode "CodeBlock" 1 3 []

def wordsRight : Tree := spannedNode "CodeBlock" 6 11 []

/-- Two blocks in one text: both insertions cut it. -/
theorem insert_comm_iff_words :
    Pair wordsLeft wordsRight ∧ (∀ x ∈ wordsRoot.preorder, AsCut sampleSource x)
      ∧ (insert? sampleSource wordsLeft wordsRoot >>= insert? sampleSource wordsRight)
        = .ok (insert sampleSource wordsRight (insert sampleSource wordsLeft wordsRoot))
      ∧ insert sampleSource wordsRight (insert sampleSource wordsLeft wordsRoot)
        = insert sampleSource wordsLeft (insert sampleSource wordsRight wordsRoot)
      ∧ (insert sampleSource wordsRight (insert sampleSource wordsLeft wordsRoot)).preorder.map
          (fun x => (x.kind, ofTree x))
        = [("Document", ⟨0, 12⟩), ("Text", ⟨0, 1⟩), ("CodeBlock", ⟨1, 3⟩), ("Text", ⟨1, 3⟩),
          ("Text", ⟨3, 6⟩), ("CodeBlock", ⟨6, 11⟩), ("Text", ⟨6, 11⟩), ("Text", ⟨11, 12⟩)] := by
  have hpiece : piece? sampleSource 0 12 = some (textLeaf sampleSource 0 12) :=
    piece?_of_ends ⟨by decide, by decide, by decide, rfl, rfl, by omega⟩
  have hcut : ∀ x ∈ wordsRoot.preorder, AsCut sampleSource x := by
    intro x hx hleaf
    change x ∈ [wordsRoot, textLeaf sampleSource 0 12] at hx
    obtain rfl | rfl : x = wordsRoot ∨ x = textLeaf sampleSource 0 12 := by simpa using hx
    · cases hleaf
    · exact ⟨by decide +kernel, hpiece⟩
  have hpair : Pair wordsLeft wordsRight := by
    constructor <;> decide +kernel
  obtain ⟨hanswers, -, -, hordered⟩ := insert_comm_iff hpair hcut
  exact ⟨hpair, hcut, hanswers, hordered (by decide +kernel), by decide +kernel⟩

/-- Two elements out of order. -/
def strayRoot : Tree := spannedNode "Document" 0 12
  [spannedNode "Element" 10 12 [], spannedNode "Element" 0 1 []]

/-- **Insertions do not commute.** Of a block before the first of two elements out of order and a
block over it, the first stands before the second element if it is inserted first, and behind it if
it is inserted second. -/
theorem insert_not_comm : ¬ ∀ (s : Source) (t u root : Tree), s.view.size = s.bytes.size →
    Pair t u → (∀ x ∈ root.preorder, AsCut s x) →
    insert s u (insert s t root) = insert s t (insert s u root) := by
  intro hall
  have hnone : ∀ x ∈ strayRoot.preorder, isTextLeaf x = false := by decide +kernel
  have hpair : Pair (spannedNode "CodeBlock" 5 6 []) (spannedNode "CodeBlock" 9 12 []) := by
    constructor <;> decide +kernel
  have heq := congrArg (fun root => root.preorder.map fun x => (x.kind, ofTree x)) <|
    hall sampleSource _ _ strayRoot rfl hpair fun x hx hleaf => by
      rw [hnone x hx] at hleaf
      cases hleaf
  revert heq
  decide +kernel

end SyntaxForest.Template
