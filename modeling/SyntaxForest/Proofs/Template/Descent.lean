import SyntaxForest.Proofs.Preorder
import SyntaxForest.Template.Insertion

/-!
# Where a node is put

`insert` and `place` go down a tree in the same way, from a node to the first of its
children that contains the span, and differ in what they do with the children where
they end. `AtHome` is that way down as a relation between the tree before and after:
the children at the end are replaced, and nothing else changes. What is proved about
inserting and placing goes by induction over it.

A statement about all siblings of a tree is `Tree.Everywhere`, and what it takes to
keep one is `AtHome.everywhere`.
-/

namespace SyntaxForest

namespace Tree

/-- A node without what is below it. -/
def head (t : Tree) : String × Properties := (t.kind, t.properties)

/-- **A relation between siblings, at every node of a tree**: earlier ones are related
to later ones. -/
def Everywhere (r : Tree → Tree → Prop) (t : Tree) : Prop :=
  ∀ u ∈ t.preorder, u.children.Pairwise r

variable {r q : Tree → Tree → Prop} {t : Tree}

theorem everywhere_iff :
    Everywhere r t ↔ t.children.Pairwise r ∧ ∀ c ∈ t.children, Everywhere r c := by
  rw [Everywhere, preorder_eq, List.forall_mem_cons]
  refine and_congr_right fun _ => ⟨fun h c hc u hu => h u ?_, fun h u hu => ?_⟩
  · rw [preorderAll_eq_flatMap, List.mem_flatMap]
    exact ⟨c, hc, hu⟩
  · rw [preorderAll_eq_flatMap, List.mem_flatMap] at hu
    obtain ⟨c, hc, hu⟩ := hu
    exact h c hc u hu

theorem Everywhere.imp (h : Everywhere r t) (hrq : ∀ a b, r a b → q a b) : Everywhere q t :=
  fun u hu => (h u hu).imp fun hab => hrq _ _ hab

theorem Everywhere.below (h : Everywhere r t) {u : Tree} (hu : u ∈ preorderAll t.children) :
    Everywhere r u := by
  intro v hv
  exact h v (mem_preorder_trans (mem_preorder_of_below hu) hv)

end Tree

namespace Template

open SyntaxForest.Template.Span (ofTree)
open SyntaxForest.Tree (preorderAll Everywhere)

variable {s : Source} {span : Span} {t u root : Tree} {r : Tree → Tree → Prop}

/-! ## Heads and spans -/

/-- The span is part of the head. -/
theorem ofTree_of_head (h : t.head = u.head) : ofTree t = ofTree u := by
  unfold ofTree Tree.get?
  rw [show t.properties = u.properties from congrArg Prod.snd h]

theorem not_isTextLeaf_of_kind (h : t.kind ≠ "Text") : isTextLeaf t = false := by
  rw [isTextLeaf, Bool.and_eq_false_iff, beq_eq_false_iff_ne]
  exact .inl h

theorem not_isTextLeaf_of_children (h : t.children ≠ []) : isTextLeaf t = false := by
  rw [isTextLeaf, Bool.and_eq_false_iff, List.isEmpty_eq_false_iff]
  exact .inr h

theorem Span.contains_iff {outer inner : Span} :
    outer.contains inner = true ↔ outer.start ≤ inner.start ∧ inner.stop ≤ outer.stop := by
  rw [contains, Bool.and_eq_true, decide_eq_true_iff, decide_eq_true_iff]

/-- A node takes a span in if it is no text and begins and ends around the span. -/
theorem isContainer_iff :
    isContainer span t = true
      ↔ isTextLeaf t = false ∧ (ofTree t).start ≤ span.start ∧ span.stop ≤ (ofTree t).stop := by
  rw [isContainer, Bool.and_eq_true, Bool.not_eq_true', Span.contains_iff]

/-- A node that is no text is passed by only if it does not contain the span. -/
theorem not_contains_of_isContainer (hnone : isContainer span t = false)
    (hleaf : isTextLeaf t = false) : ¬ (ofTree t).contains span = true := by
  rw [isContainer, hleaf] at hnone
  exact Bool.eq_false_iff.mp hnone

/-! ## The way down -/

mutual

/-- **The children of the node at which a span is at home**: one goes down to the
first child that contains the span as long as there is one. -/
def siblingsAt (span : Span) : Tree → List Tree
  | .node _ _ children => (siblingsBelow? span children).getD children

/-- The children at the end of the way through the first of several that contains the
span, if one does. -/
def siblingsBelow? (span : Span) : List Tree → Option (List Tree)
  | [] => none
  | u :: rest => if isContainer span u then some (siblingsAt span u) else siblingsBelow? span rest

end

/-- **A tree changed where a span is at home**: the children `old` there are now
`new`. -/
inductive AtHome (span : Span) (old new : List Tree) : Tree → Tree → Prop
  | here {kind : String} {props : Properties}
      (hnone : ∀ u ∈ old, isContainer span u = false) :
      AtHome span old new (.node kind props old) (.node kind props new)
  | under {kind : String} {props : Properties} {before after : List Tree} {u u' : Tree}
      (hnone : ∀ b ∈ before, isContainer span b = false) (hu : isContainer span u = true)
      (hin : AtHome span old new u u') :
      AtHome span old new (.node kind props (before ++ u :: after))
        (.node kind props (before ++ u' :: after))

/-- **A function that goes down** to where a span is at home and does `f` to the
children there; `gs` is what it does to several nodes. -/
structure GoesDown (span : Span) (f : List Tree → List Tree) (g : Tree → Tree)
    (gs : List Tree → Option (List Tree)) : Prop where
  node : ∀ kind props children,
    g (.node kind props children) = .node kind props ((gs children).getD (f children))
  nil : gs [] = none
  cons : ∀ u rest, gs (u :: rest)
    = if isContainer span u then some (g u :: rest) else (gs rest).map (u :: ·)

/-- What comes of several nodes: none contains the span, or the first that does is
changed. -/
def Way (span : Span) (f : List Tree → List Tree) (gs : List Tree → Option (List Tree))
    (children : List Tree) : Prop :=
  match siblingsBelow? span children with
  | none => gs children = none ∧ ∀ u ∈ children, isContainer span u = false
  | some old => ∃ before u u' after, children = before ++ u :: after
      ∧ gs children = some (before ++ u' :: after)
      ∧ (∀ b ∈ before, isContainer span b = false) ∧ isContainer span u = true
      ∧ AtHome span old (f old) u u'

variable {f : List Tree → List Tree} {g : Tree → Tree} {gs : List Tree → Option (List Tree)}

mutual

theorem GoesDown.atHome (h : GoesDown span f g gs) : ∀ root : Tree,
    AtHome span (siblingsAt span root) (f (siblingsAt span root)) root (g root)
  | .node kind props children => by
    have hway : Way span f gs children := h.way children
    rw [siblingsAt, h.node]
    unfold Way at hway
    revert hway
    cases siblingsBelow? span children with
    | none =>
      rintro ⟨hnone, hall⟩
      rw [hnone]
      exact .here hall
    | some old =>
      rintro ⟨before, u, u', after, rfl, hsome, hall, hu, hin⟩
      rw [hsome]
      exact .under hall hu hin

theorem GoesDown.way (h : GoesDown span f g gs) :
    ∀ children : List Tree, Way span f gs children
  | [] => ⟨h.nil, fun _ hu => nomatch hu⟩
  | u :: rest => by
    have hu : AtHome span (siblingsAt span u) (f (siblingsAt span u)) u (g u) := h.atHome u
    have hrest : Way span f gs rest := h.way rest
    unfold Way at hrest ⊢
    rw [siblingsBelow?, h.cons]
    by_cases hc : isContainer span u = true
    · rw [if_pos hc, if_pos hc]
      exact ⟨[], u, g u, rest, rfl, rfl, fun _ hb => (nomatch hb), hc, hu⟩
    · rw [if_neg hc, if_neg hc]
      revert hrest
      cases siblingsBelow? span rest with
      | none =>
        rintro ⟨hnone, hall⟩
        rw [hnone]
        exact ⟨rfl, List.forall_mem_cons.mpr ⟨eq_false_of_ne_true hc, hall⟩⟩
      | some old =>
        rintro ⟨before, v, v', after, rfl, hsome, hall, hv, hin⟩
        rw [hsome]
        exact ⟨u :: before, v, v', after, rfl, rfl,
          List.forall_mem_cons.mpr ⟨eq_false_of_ne_true hc, hall⟩, hv, hin⟩

end

/-- Inserting goes down. -/
theorem insert_goesDown (s : Source) (t : Tree) :
    GoesDown (ofTree t) (insertAmong s t) (insert s t) (insertBelow? s t) :=
  ⟨fun _ _ _ => rfl, rfl, fun _ _ => rfl⟩

/-- Placing goes down. -/
theorem place_goesDown (t : Tree) :
    GoesDown (ofTree t) (insertByStart t) (place t) (placeBelow? t) :=
  ⟨fun _ _ _ => rfl, rfl, fun _ _ => rfl⟩

/-- **An insertion changes one list of siblings**, at the end of the way of its span. -/
theorem insert_atHome (s : Source) (t root : Tree) :
    AtHome (ofTree t) (siblingsAt (ofTree t) root)
      (insertAmong s t (siblingsAt (ofTree t) root)) root (insert s t root) :=
  (insert_goesDown s t).atHome root

/-- A placing changes one list of siblings, at the end of the way of its span. -/
theorem place_atHome (t root : Tree) :
    AtHome (ofTree t) (siblingsAt (ofTree t) root)
      (insertByStart t (siblingsAt (ofTree t) root)) root (place t root) :=
  (place_goesDown t).atHome root

/-! ## What the way leaves as it was -/

/-- **A property that is read off the head** of a node that is no text leaf. It does not
see what is put below the node. -/
def OfHead (p : Tree → Prop) : Prop :=
  ∀ u u' : Tree, u'.head = u.head → isTextLeaf u = false → isTextLeaf u' = false → p u → p u'

namespace AtHome

variable {old new : List Tree} {t' v : Tree}

/-- What goes on below a node leaves it as it is. -/
theorem head_eq (h : AtHome span old new t t') : t'.head = t.head := by
  cases h <;> rfl

theorem ofTree_eq (h : AtHome span old new t t') : ofTree t' = ofTree t :=
  ofTree_of_head h.head_eq

/-- A node on the way has something below it. -/
theorem not_isTextLeaf (h : AtHome span old new t t') (hnew : new ≠ []) :
    isTextLeaf t' = false := by
  refine not_isTextLeaf_of_children ?_
  cases h with
  | here => exact hnew
  | under => exact List.append_ne_nil_of_right_ne_nil _ (List.cons_ne_nil _ _)

/-- At the end of the way no node contains the span. -/
theorem old_none (h : AtHome span old new t t') : ∀ u ∈ old, isContainer span u = false := by
  induction h with
  | here hnone => exact hnone
  | under _ _ _ ih => exact ih

/-- The children that are replaced are those of a node of the tree, and so are the new
ones afterwards. -/
theorem exists_children (h : AtHome span old new t t') :
    (∃ v ∈ t.preorder, v.children = old) ∧ ∃ v ∈ t'.preorder, v.children = new := by
  induction h with
  | @here kind props =>
    exact ⟨⟨.node kind props old, List.mem_cons_self .., rfl⟩,
      ⟨.node kind props new, List.mem_cons_self .., rfl⟩⟩
  | @under kind props before after u u' _ _ _ ih =>
    have hup : ∀ w v, v ∈ w.preorder →
        v ∈ (Tree.node kind props (before ++ w :: after)).preorder := by
      intro w v hv
      rw [Tree.preorder_eq, List.mem_cons]
      refine .inr ?_
      show v ∈ preorderAll (before ++ w :: after)
      rw [Tree.preorderAll_append, Tree.preorderAll_cons]
      exact List.mem_append_right _ (List.mem_append_left _ hv)
    obtain ⟨⟨v, hv, hold⟩, w, hw, hnew⟩ := ih
    exact ⟨⟨v, hup u v hv, hold⟩, w, hup u' w hw, hnew⟩

theorem old_everywhere (h : AtHome span old new t t') (ht : Everywhere r t) :
    old.Pairwise r ∧ ∀ c ∈ old, Everywhere r c := by
  obtain ⟨v, hv, rfl⟩ := h.exists_children.1
  exact Tree.everywhere_iff.mp fun w hw => ht w (Tree.mem_preorder_trans hv hw)

theorem mem_of_old (h : AtHome span old new t t') (hv : v ∈ preorderAll old) :
    v ∈ preorderAll t.children := by
  obtain ⟨w, hw, rfl⟩ := h.exists_children.1
  exact Tree.mem_below_trans hw hv

theorem mem_of_new (h : AtHome span old new t t') (hv : v ∈ preorderAll new) :
    v ∈ preorderAll t'.children := by
  obtain ⟨w, hw, rfl⟩ := h.exists_children.2
  exact Tree.mem_below_trans hw hv

/-- **What is in the changed tree**: what was there, what the new children hold, and
the nodes on the way. -/
theorem mem_preorderAll (h : AtHome span old new t t') (hv : v ∈ preorderAll t'.children) :
    v ∈ preorderAll t.children ∨ v ∈ preorderAll new
      ∨ ∃ u ∈ preorderAll t.children, isContainer span u = true ∧ AtHome span old new u v := by
  induction h with
  | here => exact .inr (.inl hv)
  | @under kind props before after u u' _ hu hin ih =>
    have hmem : ∀ w, w ∈ u.preorder → w ∈ preorderAll (before ++ u :: after) := fun w hw => by
      rw [Tree.preorderAll_append, Tree.preorderAll_cons]
      exact List.mem_append_right _ (List.mem_append_left _ hw)
    change v ∈ preorderAll (before ++ u' :: after) at hv
    show v ∈ preorderAll (before ++ u :: after) ∨ _
      ∨ ∃ w ∈ preorderAll (before ++ u :: after), _
    rw [Tree.preorderAll_append, Tree.preorderAll_cons, List.mem_append, List.mem_append,
      Tree.preorder_eq, List.mem_cons] at hv
    rcases hv with hv | (rfl | hv) | hv
    · rw [Tree.preorderAll_append]
      exact .inl (List.mem_append_left _ hv)
    · exact .inr (.inr ⟨u, hmem u u.mem_preorder_self, hu, hin⟩)
    · rcases ih hv with hold | hnew | ⟨w, hw, hway⟩
      · exact .inl (hmem v (Tree.mem_preorder_of_below hold))
      · exact .inr (.inl hnew)
      · exact .inr (.inr ⟨w, hmem w (Tree.mem_preorder_of_below hw), hway⟩)
    · rw [Tree.preorderAll_append, Tree.preorderAll_cons]
      exact .inl (List.mem_append_right _ (List.mem_append_right _ hv))

/-- **A property of nodes is kept** if the new children have it. -/
theorem forall_mem (h : AtHome span old new t t') {p : Tree → Prop} (hp : OfHead p)
    (hne : new ≠ []) (hold : ∀ v ∈ preorderAll t.children, p v)
    (hnew : ∀ v ∈ preorderAll new, p v) : ∀ v ∈ preorderAll t'.children, p v := by
  intro v hv
  rcases h.mem_preorderAll hv with hv | hv | ⟨u, hu, hc, hin⟩
  · exact hold v hv
  · exact hnew v hv
  · exact hp u v hin.head_eq (isContainer_iff.mp hc).1 (hin.not_isTextLeaf hne) (hold u hu)

/-- **A relation between siblings is kept** if the new children keep it, and if it
does not see the change of a node on the way. -/
theorem everywhere (h : AtHome span old new t t') (ht : Everywhere r t)
    (hnew : new.Pairwise r) (hbelow : ∀ c ∈ new, Everywhere r c)
    (hway : ∀ u ∈ preorderAll t.children, ∀ u', isContainer span u = true →
      AtHome span old new u u' → ∀ x ∈ preorderAll t.children,
        (r x u → r x u') ∧ (r u x → r u' x)) :
    Everywhere r t' := by
  induction h with
  | here => exact Tree.everywhere_iff.mpr ⟨hnew, hbelow⟩
  | @under kind props before after u u' _ hu hin ih =>
    obtain ⟨hpair, hall⟩ := Tree.everywhere_iff.mp ht
    change (before ++ u :: after).Pairwise r at hpair
    change ∀ c ∈ before ++ u :: after, Everywhere r c at hall
    have hmem : ∀ x ∈ before ++ u :: after, x ∈ preorderAll (before ++ u :: after) :=
      fun x hx => Tree.mem_preorderAll_of_mem hx
    have hchange : ∀ x ∈ before ++ u :: after, (r x u → r x u') ∧ (r u x → r u' x) :=
      fun x hx => hway u (hmem u (by simp)) u' hu hin x (hmem x hx)
    rw [List.pairwise_append, List.pairwise_cons] at hpair
    obtain ⟨hbefore, ⟨hu_after, hafter⟩, hcross⟩ := hpair
    -- the siblings of the changed child do not see the change, and it is in its turn changed
    -- further down only
    refine Tree.everywhere_iff.mpr ⟨?_, fun c hc => ?_⟩
    · show (before ++ u' :: after).Pairwise r
      rw [List.pairwise_append, List.pairwise_cons]
      refine ⟨hbefore, ⟨fun x hx => (hchange x (by simp [hx])).2 (hu_after x hx), hafter⟩, ?_⟩
      intro x hx y hy
      rcases List.mem_cons.mp hy with rfl | hy
      · exact (hchange x (by simp [hx])).1 (hcross x hx u (List.mem_cons_self ..))
      · exact hcross x hx y (List.mem_cons_of_mem _ hy)
    · change c ∈ before ++ u' :: after at hc
      rw [List.mem_append, List.mem_cons] at hc
      rcases hc with hc | rfl | hc
      · exact hall c (by simp [hc])
      · refine ih (hall u (by simp)) fun w hw w' hcw hatw x hx => ?_
        have hdeep : ∀ y ∈ preorderAll u.children, y ∈ preorderAll (before ++ u :: after) :=
          fun y hy => Tree.mem_preorderAll_trans (hmem u (by simp)) hy
        exact hway w (hdeep w hw) w' hcw hatw x (hdeep x hx)
      · exact hall c (by simp [hc])

end AtHome

end Template

end SyntaxForest
