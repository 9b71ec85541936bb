import SyntaxForest.Proofs.Template.Recorded

/-!
# The nodes that a conversion keeps

A conversion keeps the root of a parse tree and, below it, the named nodes that are reached
through named ones (`ParseTree.keptBelow`); with an anonymous node goes all that is below it.
What it makes of a node depends on nothing around the node (`Conversion.converted`), so the
pre-order of a converted tree is that of the kept nodes (`Conversion.preorder_below`).

In a nested tree a kept node splits the pre-order: what is below it follows it, what stands in
front holds it or ends before it, and what stands behind begins after it (`exists_split`).
-/

namespace SyntaxForest

namespace ParseTree

mutual

/-- **The nodes below a node that are kept**, in pre-order. -/
def keptBelow : ParseTree → List ParseTree
  | .node _ children => keptAll children

/-- The nodes that are kept of several trees. -/
def keptAll : List ParseTree → List ParseTree
  | [] => []
  | t :: rest => if t.head.named then t :: (t.keptBelow ++ keptAll rest) else keptAll rest

end

mutual

/-- **All named nodes below a node**, in pre-order. -/
def namedBelow : ParseTree → List ParseTree
  | .node _ children => namedAll children

/-- All named nodes of several trees. -/
def namedAll : List ParseTree → List ParseTree
  | [] => []
  | t :: rest => (if t.head.named then [t] else []) ++ (t.namedBelow ++ namedAll rest)

end

variable {t m n : ParseTree} {ts : List ParseTree} {low high : Nat}

theorem keptBelow_eq (t : ParseTree) : t.keptBelow = keptAll t.children := by
  cases t
  rfl

theorem nested_iff : t.nested = true ↔ nestedAll t.head.start t.head.stop t.children = true := by
  cases t
  exact Iff.rfl

theorem nestedAll_cons : nestedAll low high (t :: ts) = true
    ↔ (low ≤ t.head.start ∧ t.nested = true) ∧ nestedAll t.head.stop high ts = true := by
  rw [nestedAll, Bool.and_eq_true, Bool.and_eq_true, decide_eq_true_iff]

mutual

/-- **What is kept is named**, and stands in the same order. -/
theorem keptBelow_sublist : ∀ t : ParseTree, t.keptBelow.Sublist t.namedBelow
  | .node _ children => keptAll_sublist children

/-- What is kept is named. -/
theorem keptAll_sublist : ∀ ts : List ParseTree, (keptAll ts).Sublist (namedAll ts)
  | [] => .slnil
  | t :: rest => by
    have hself := keptBelow_sublist t
    have hrest := keptAll_sublist rest
    unfold keptAll namedAll
    split
    · exact (hself.append hrest).cons_cons t
    · exact hrest.trans (List.sublist_append_right ..)

end

mutual

/-- What is kept below a kept node is kept. -/
theorem mem_keptBelow_trans : ∀ {t : ParseTree}, m ∈ t.keptBelow → n ∈ m.keptBelow →
    n ∈ t.keptBelow
  | .node _ _ => mem_keptAll_trans

/-- What is kept below a kept node is kept. -/
theorem mem_keptAll_trans : ∀ {ts : List ParseTree}, m ∈ keptAll ts → n ∈ m.keptBelow →
    n ∈ keptAll ts
  | [] => fun hm _ => nomatch hm
  | t :: rest => by
    intro hm hn
    unfold keptAll at hm ⊢
    split at hm
    · next hnamed =>
      rw [if_pos hnamed]
      rw [List.mem_cons, List.mem_append] at hm ⊢
      rcases hm with rfl | hm | hm
      · exact .inr (.inl hn)
      · exact .inr (.inl (mem_keptBelow_trans hm hn))
      · exact .inr (.inr (mem_keptAll_trans hm hn))
    · next hnamed =>
      rw [if_neg hnamed]
      exact mem_keptAll_trans hm hn

end

theorem mem_keptAll_of_mem (ht : t ∈ ts) (hnamed : t.head.named = true) : t ∈ keptAll ts := by
  induction ts with
  | nil => cases ht
  | cons u rest ih =>
    rw [keptAll]
    rcases List.mem_cons.mp ht with rfl | ht
    · rw [if_pos hnamed]
      exact List.mem_cons_self
    · split
      · exact List.mem_cons_of_mem _ (List.mem_append_right _ (ih ht))
      · exact ih ht

/-- The named children of a node are kept below it. -/
theorem mem_keptBelow_of_mem (ht : t ∈ m.namedChildren) : t ∈ m.keptBelow := by
  obtain ⟨hin, hnamed⟩ := List.mem_filter.mp ht
  rw [keptBelow_eq]
  exact mem_keptAll_of_mem hin hnamed

/-! ## Places in nested trees -/

mutual

theorem nested_le : ∀ {t : ParseTree}, t.nested = true → t.head.start ≤ t.head.stop
  | .node _ _ => nestedAll_le

theorem nestedAll_le : ∀ {ts : List ParseTree} {low high : Nat},
    nestedAll low high ts = true → low ≤ high
  | [], _, _ => fun h => decide_eq_true_iff.mp h
  | t :: rest, _, _ => by
    intro h
    obtain ⟨⟨hlow, hself⟩, hrest⟩ := nestedAll_cons.mp h
    have := nested_le hself
    have := nestedAll_le hrest
    omega

end

mutual

/-- **What is kept below a node lies inside it.** -/
theorem keptBelow_inside : ∀ {t : ParseTree}, t.nested = true → ∀ n ∈ t.keptBelow,
    t.head.start ≤ n.head.start ∧ n.head.stop ≤ t.head.stop ∧ n.nested = true
  | .node _ _ => keptAll_inside

/-- **What is kept of nested trees** lies between their bounds, and is nested itself. -/
theorem keptAll_inside : ∀ {ts : List ParseTree} {low high : Nat},
    nestedAll low high ts = true → ∀ n ∈ keptAll ts,
      low ≤ n.head.start ∧ n.head.stop ≤ high ∧ n.nested = true
  | [], _, _ => fun _ _ hn => nomatch hn
  | t :: rest, low, high => by
    intro h n hn
    obtain ⟨⟨hlow, hself⟩, hrest⟩ := nestedAll_cons.mp h
    have hle := nested_le hself
    have hhigh := nestedAll_le hrest
    have later : n ∈ keptAll rest → low ≤ n.head.start ∧ n.head.stop ≤ high ∧ n.nested = true := by
      intro hn
      have := keptAll_inside hrest n hn
      exact ⟨by omega, this.2⟩
    unfold keptAll at hn
    split at hn
    · rw [List.mem_cons, List.mem_append] at hn
      rcases hn with rfl | hn | hn
      · exact ⟨hlow, hhigh, hself⟩
      · have := keptBelow_inside hself n hn
        exact ⟨by omega, by omega, this.2.2⟩
      · exact later hn
    · exact later hn

end

/-- What is kept begins no earlier than the tree that it comes with. -/
theorem exists_named_of_mem (h : nestedAll low high ts = true) (hn : n ∈ keptAll ts) :
    ∃ c ∈ ts, c.head.named = true ∧ c.head.start ≤ n.head.start := by
  induction ts generalizing low with
  | nil => cases hn
  | cons t rest ih =>
    obtain ⟨⟨-, hself⟩, hrest⟩ := nestedAll_cons.mp h
    have later : n ∈ keptAll rest →
        ∃ c ∈ t :: rest, c.head.named = true ∧ c.head.start ≤ n.head.start := fun hn =>
      (ih hrest hn).imp fun c hc => ⟨List.mem_cons_of_mem _ hc.1, hc.2⟩
    unfold keptAll at hn
    split at hn
    · next hnamed =>
      rw [List.mem_cons, List.mem_append] at hn
      rcases hn with rfl | hn | hn
      · exact ⟨n, List.mem_cons_self, hnamed, Nat.le_refl _⟩
      · exact ⟨t, List.mem_cons_self, hnamed, (keptBelow_inside hself n hn).1⟩
      · exact later hn
    · exact later hn

/-- What is kept below a node begins no earlier than some named child of it. -/
theorem exists_namedChild (ht : t.nested = true) (hn : n ∈ t.keptBelow) :
    ∃ c ∈ t.namedChildren, c.head.start ≤ n.head.start := by
  rw [nested_iff] at ht
  rw [keptBelow_eq] at hn
  obtain ⟨c, hc, hnamed, hle⟩ := exists_named_of_mem ht hn
  exact ⟨c, List.mem_filter.mpr ⟨hc, hnamed⟩, hle⟩

/-- **The pre-order around a node**: what stands in front of it holds it or ends before it, what
is below it follows it, and what stands behind begins after it. -/
def SplitsAt (m : ParseTree) (all : List ParseTree) : Prop :=
  ∃ before after, all = before ++ (m :: m.keptBelow) ++ after
    ∧ (∀ n ∈ before, n.head.stop ≤ m.head.start
      ∨ n.head.start ≤ m.head.start ∧ m.head.stop ≤ n.head.stop)
    ∧ ∀ n ∈ after, m.head.stop ≤ n.head.start

mutual

/-- **A kept node below a nested one** splits its pre-order. -/
theorem keptBelow_splitsAt : ∀ {t : ParseTree}, t.nested = true → m ∈ t.keptBelow →
    SplitsAt m t.keptBelow
  | .node _ _ => keptAll_splitsAt

/-- **A kept node of nested trees** splits their pre-order. -/
theorem keptAll_splitsAt : ∀ {ts : List ParseTree} {low high : Nat},
    nestedAll low high ts = true → m ∈ keptAll ts → SplitsAt m (keptAll ts)
  | [], _, _ => fun _ hm => nomatch hm
  | t :: rest, low, high => by
    intro h hm
    obtain ⟨⟨-, hself⟩, hrest⟩ := nestedAll_cons.mp h
    have hle := nested_le hself
    unfold keptAll at hm ⊢
    split at hm
    · next hnamed =>
      rw [if_pos hnamed]
      rw [List.mem_cons, List.mem_append] at hm
      rcases hm with rfl | hm | hm
      · exact ⟨[], keptAll rest, rfl, fun _ hn => (nomatch hn),
          fun n hn => (keptAll_inside hrest n hn).1⟩
      · obtain ⟨before, after, hsplit, hbefore, hafter⟩ := keptBelow_splitsAt hself hm
        have hin := keptBelow_inside hself m hm
        refine ⟨t :: before, after ++ keptAll rest, by simp [hsplit], ?_, fun n hn => ?_⟩
        · exact List.forall_mem_cons.mpr ⟨.inr ⟨hin.1, hin.2.1⟩, hbefore⟩
        · rcases List.mem_append.mp hn with hn | hn
          · exact hafter n hn
          · have := keptAll_inside hrest n hn
            omega
      · obtain ⟨before, after, hsplit, hbefore, hafter⟩ := keptAll_splitsAt hrest hm
        have hin := keptAll_inside hrest m hm
        refine ⟨t :: (t.keptBelow ++ before), after, by simp [hsplit], fun n hn => ?_, hafter⟩
        rw [List.mem_cons, List.mem_append] at hn
        rcases hn with rfl | hn | hn
        · exact .inl hin.1
        · have := keptBelow_inside hself n hn
          exact .inl (by omega)
        · exact hbefore n hn
    · next hnamed =>
      rw [if_neg hnamed]
      exact keptAll_splitsAt hrest hm

end

end ParseTree

/-! ## Conversions -/

namespace Conversion

variable {describe : Describe} {src : Bytes} {shift : Shift}

/-- **What a conversion makes of a node.** -/
def converted (describe : Describe) (src : Bytes) (shift : Shift) (t : ParseTree) : Tree :=
  (below describe src shift false t).root

mutual

theorem below_root (e : Bool) : ∀ t : ParseTree,
    (below describe src shift e t).root = converted describe src shift t
  | .node head children => by
    have h := allBelow_fst (e || head.error) children
    have h' := allBelow_fst (false || head.error) children
    unfold converted below
    dsimp only
    rw [h, h']

/-- **Being inside an error** is seen in the weight only. -/
theorem allBelow_fst (e : Bool) : ∀ ts : List ParseTree,
    (allBelow describe src shift e ts).1
      = (ts.filter (·.head.named)).map (converted describe src shift)
  | [] => rfl
  | .node head children :: rest => by
    have hself := below_root e (.node head children)
    have hrest := allBelow_fst e rest
    unfold allBelow
    dsimp only
    rw [List.filter_cons]
    by_cases hnamed : head.named = true
    · rw [if_pos hnamed, if_pos (show (ParseTree.node head children).head.named = true from hnamed),
        List.map_cons, ← hself, ← hrest]
    · rw [if_neg hnamed, if_neg (show ¬(ParseTree.node head children).head.named = true from hnamed)]
      exact hrest

end

/-- The children of a converted node are its named children, converted. -/
theorem converted_children (t : ParseTree) :
    (converted describe src shift t).children
      = t.namedChildren.map (converted describe src shift) := by
  cases t with
  | node head children => exact allBelow_fst _ children

/-- A converted node is of the category of its kind. -/
theorem converted_kind (t : ParseTree) :
    (converted describe src shift t).kind = categoryOf t.kind := by
  cases t
  rfl

theorem convert_children (t : ParseTree) (kind : Option String) :
    (t.convert src describe shift kind).root.children
      = t.namedChildren.map (converted describe src shift) :=
  allBelow_fst _ t.children

mutual

/-- **The pre-order of a converted node** is that of the kept ones. -/
theorem preorder_converted : ∀ t : ParseTree, (converted describe src shift t).preorder
    = converted describe src shift t :: t.keptBelow.map (converted describe src shift)
  | .node head children => by
    rw [Tree.preorder_eq, converted_children]
    exact congrArg _ (preorderAll_converted children)

/-- **The nodes of converted trees** are the kept ones, converted. -/
theorem preorderAll_converted : ∀ ts : List ParseTree,
    Tree.preorderAll ((ts.filter (·.head.named)).map (converted describe src shift))
      = (ParseTree.keptAll ts).map (converted describe src shift)
  | [] => rfl
  | t :: rest => by
    have hself := preorder_converted t
    have hrest := preorderAll_converted rest
    rw [List.filter_cons]
    unfold ParseTree.keptAll
    split
    · rw [List.map_cons, Tree.preorderAll_cons, hself, hrest, List.map_cons, List.map_append,
        List.cons_append]
    · exact hrest

end

/-- **A converted node stands where the parse node does**, moved. -/
theorem ofTree_converted (hd : ∀ t, Unplaced (describe t src)) (t : ParseTree) :
    Template.Span.ofTree (converted describe src shift t)
      = ⟨t.head.start + shift.byte, t.head.stop + shift.byte⟩ :=
  ofTree_below hd false t

end Conversion

end SyntaxForest
