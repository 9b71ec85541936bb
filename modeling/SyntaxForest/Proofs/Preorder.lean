import SyntaxForest.Proofs.Traversal
import SyntaxForest.Template.View
import SyntaxForest.Tree

/-!
# Pre-order as a recursion

What runs walks trees and constructs by a work list, so that nothing can be
nested too deep. What is proved goes by recursion over the children. This module
joins the two: `Segment.preorder` is the recursion that `Segment.flatten` computes,
and `Tree.preorder` the one of `Tree.walk`. Each work list is a traversal by a stack
(`walkFrom_finds`), and the recursion is that of the traversal.
-/

namespace SyntaxForest

namespace Template.Segment

mutual

/-- **Pre-order by recursion**: the construct, then those nested in it. -/
def preorder : Segment → List Segment
  | ⟨construct, start, stop, content, bodies, markup, children⟩ =>
    ⟨construct, start, stop, content, bodies, markup, children⟩ :: preorderAll children

/-- The pre-orders of several constructs, one after another. -/
def preorderAll : List Segment → List Segment
  | [] => []
  | s :: rest => preorder s ++ preorderAll rest

end

theorem preorder_eq (s : Segment) : s.preorder = s :: preorderAll s.children := by
  cases s
  rfl

@[simp] theorem preorderAll_nil : preorderAll [] = [] := rfl

@[simp] theorem preorderAll_cons (s : Segment) (rest : List Segment) :
    preorderAll (s :: rest) = s.preorder ++ preorderAll rest := rfl

@[simp] theorem preorderAll_append (a b : List Segment) :
    preorderAll (a ++ b) = preorderAll a ++ preorderAll b := by
  induction a with
  | nil => rfl
  | cons s rest ih => rw [List.cons_append, preorderAll_cons, ih, preorderAll_cons,
      List.append_assoc]

theorem preorderAll_eq_flatMap (segments : List Segment) :
    preorderAll segments = segments.flatMap preorder := by
  induction segments with
  | nil => rfl
  | cons s rest ih => rw [preorderAll_cons, ih, List.flatMap_cons]

/-- **Going through constructs** and all that is nested in them. -/
def traversal : Traversal Segment := ⟨fun s => [s], Segment.children⟩

theorem isRecursion_preorder : traversal.IsRecursion preorder := fun s => by
  rw [preorder_eq, preorderAll_eq_flatMap]
  rfl

/-- The work list is a stack. -/
theorem flattenFrom_finds (segments : List Segment) :
    traversal.Finds segments (flattenFrom segments) := by
  induction segments using flattenFrom.induct with
  | case1 =>
    rw [flattenFrom]
    exact .nil
  | case2 s waiting ih =>
    rw [flattenFrom]
    exact ih.cons

/-- **The work list yields the recursion.** -/
theorem flattenFrom_eq (segments : List Segment) :
    flattenFrom segments = preorderAll segments := by
  rw [preorderAll_eq_flatMap]
  exact (flattenFrom_finds segments).eq_flatMap isRecursion_preorder

theorem flatten_eq (s : Segment) : s.flatten = s.preorder := by
  rw [flatten, flattenFrom_eq, preorderAll_cons, preorderAll_nil, List.append_nil]

theorem allSegments_eq (scanned : List Segment) :
    allSegments scanned = preorderAll scanned := by
  rw [allSegments, funext flatten_eq, preorderAll_eq_flatMap]

/-- A construct comes with all that is nested in it. -/
theorem mem_preorderAll {t : Segment} {segments : List Segment} :
    t ∈ preorderAll segments ↔ ∃ s ∈ segments, t = s ∨ t ∈ preorderAll s.children := by
  rw [preorderAll_eq_flatMap, List.mem_flatMap]
  simp only [preorder_eq, List.mem_cons]

theorem sizeAll_children_lt {s : Segment} {segments : List Segment} (h : s ∈ segments) :
    sizeAll s.children < sizeAll segments := by
  obtain ⟨a, b, rfl⟩ := List.append_of_mem h
  rw [sizeAll_append, sizeAll, size_eq s]
  omega

/-- What is nested in a construct of a list is nested in the list. -/
theorem mem_preorderAll_trans {s t : Segment} {segments : List Segment}
    (hs : s ∈ preorderAll segments) (ht : t ∈ preorderAll s.children) :
    t ∈ preorderAll segments := by
  induction hn : sizeAll segments using Nat.strongRecOn generalizing segments with
  | ind n ih =>
    obtain ⟨u, hu, rfl | hsu⟩ := mem_preorderAll.mp hs
    · exact mem_preorderAll.mpr ⟨s, hu, .inr ht⟩
    · have hlt : sizeAll u.children < n := hn ▸ sizeAll_children_lt hu
      exact mem_preorderAll.mpr ⟨u, hu, .inr (ih _ hlt hsu rfl)⟩

theorem mem_preorderAll_of_mem {s : Segment} {segments : List Segment} (h : s ∈ segments) :
    s ∈ preorderAll segments :=
  mem_preorderAll.mpr ⟨s, h, .inl rfl⟩

end Template.Segment

namespace Tree

variable {t u : Tree} {trees : List Tree}

/-- **Induction over trees**, from the children to the root. -/
@[elab_as_elim]
theorem childrenInduction {motive : Tree → Prop}
    (h : ∀ t : Tree, (∀ c ∈ t.children, motive c) → motive t) (t : Tree) : motive t := by
  refine h t fun c hc => ?_
  exact childrenInduction h c
termination_by sizeOf t
decreasing_by
  cases t with
  | node kind props children =>
    have := List.sizeOf_lt_of_mem hc
    simp only [Tree.children, node.sizeOf_spec] at this ⊢
    omega

theorem preorder_eq (t : Tree) : t.preorder = t :: preorderAll t.children := by
  cases t
  rfl

@[simp] theorem preorderAll_nil : preorderAll [] = [] := rfl

@[simp] theorem preorderAll_cons (t : Tree) (rest : List Tree) :
    preorderAll (t :: rest) = t.preorder ++ preorderAll rest := rfl

@[simp] theorem preorderAll_append (a b : List Tree) :
    preorderAll (a ++ b) = preorderAll a ++ preorderAll b := by
  induction a with
  | nil => rfl
  | cons t rest ih => rw [List.cons_append, preorderAll_cons, ih, preorderAll_cons,
      List.append_assoc]

theorem preorderAll_eq_flatMap (trees : List Tree) :
    preorderAll trees = trees.flatMap preorder := by
  induction trees with
  | nil => rfl
  | cons t rest ih => rw [preorderAll_cons, ih, List.flatMap_cons]

theorem mem_preorderAll_flatMap :
    t ∈ preorderAll (trees.flatMap children) ↔ ∃ u ∈ trees, t ∈ preorderAll u.children := by
  simp only [preorderAll_eq_flatMap, List.flatMap_assoc, List.mem_flatMap]

/-- **Going through trees**: a node that is `kept` is shown, and what is below a node is gone
through if it is `entered`. -/
def traversal (kept entered : Tree → Bool) : Traversal Tree :=
  ⟨fun t => if kept t then [t] else [], fun t => if entered t then t.children else []⟩

section

variable {kept entered : Tree → Bool} {waiting out : List Tree}

theorem below_of_entered (h : entered t = true) : (traversal kept entered).below t = t.children :=
  if_pos h

theorem below_of_passed (h : entered t = false) : (traversal kept entered).below t = [] :=
  if_neg (Bool.eq_false_iff.mp h)

/-- Taking a node and putting its children onto the stack. -/
theorem finds_cons_entered (hentered : entered t = true)
    (h : (traversal kept entered).Finds (t.children ++ waiting) out) :
    (traversal kept entered).Finds (t :: waiting) ((if kept t then [t] else []) ++ out) := by
  refine Traversal.Finds.cons (w := traversal kept entered) ?_
  rwa [below_of_entered hentered]

/-- Taking a node without what is below it. -/
theorem finds_cons_passed (hpassed : entered t = false)
    (h : (traversal kept entered).Finds waiting out) :
    (traversal kept entered).Finds (t :: waiting) ((if kept t then [t] else []) ++ out) := by
  refine Traversal.Finds.cons (w := traversal kept entered) ?_
  rwa [below_of_passed hpassed, List.nil_append]

end

/-- **Going through all nodes.** -/
def fullTraversal : Traversal Tree := traversal (fun _ => true) (fun _ => true)

theorem isRecursion_preorder : fullTraversal.IsRecursion preorder := fun t => by
  rw [preorder_eq, preorderAll_eq_flatMap]
  rfl

/-- The work list is a stack. -/
theorem walkFrom_finds (trees : List Tree) : fullTraversal.Finds trees (walkFrom trees) := by
  induction trees using walkFrom.induct with
  | case1 =>
    rw [walkFrom]
    exact .nil
  | case2 t waiting ih =>
    rw [walkFrom]
    exact finds_cons_entered rfl ih

/-- **The work list yields the recursion.** -/
theorem walkFrom_eq (trees : List Tree) : walkFrom trees = preorderAll trees := by
  rw [preorderAll_eq_flatMap]
  exact (walkFrom_finds trees).eq_flatMap isRecursion_preorder

theorem walk_eq (t : Tree) : t.walk = t.preorder := by
  rw [walk, walkFrom_eq, preorderAll_cons, preorderAll_nil, List.append_nil]

/-- A tree comes with all that is below it. -/
theorem mem_preorderAll :
    t ∈ preorderAll trees ↔ ∃ u ∈ trees, t = u ∨ t ∈ preorderAll u.children := by
  rw [preorderAll_eq_flatMap, List.mem_flatMap]
  simp only [preorder_eq, List.mem_cons]

theorem mem_preorderAll_of_mem (h : t ∈ trees) : t ∈ preorderAll trees :=
  mem_preorderAll.mpr ⟨t, h, .inl rfl⟩

theorem mem_preorder_self (t : Tree) : t ∈ t.preorder := by
  rw [preorder_eq]
  exact List.mem_cons_self ..

theorem mem_preorder_of_below (h : u ∈ preorderAll t.children) : u ∈ t.preorder := by
  rw [preorder_eq]
  exact List.mem_cons_of_mem _ h

/-- What is below a node of a list of trees is below the list. -/
theorem mem_preorderAll_trans (hu : u ∈ preorderAll trees) (ht : t ∈ preorderAll u.children) :
    t ∈ preorderAll trees := by
  induction hn : sizeAll trees using Nat.strongRecOn generalizing trees with
  | ind n ih =>
    obtain ⟨v, hv, rfl | huv⟩ := mem_preorderAll.mp hu
    · exact mem_preorderAll.mpr ⟨u, hv, .inr ht⟩
    · have hlt : sizeAll v.children < n := by
        have := size_le_sizeAll hv
        rw [size_eq v] at this
        omega
      exact mem_preorderAll.mpr ⟨v, hv, .inr (ih _ hlt huv rfl)⟩

theorem mem_preorderAll_of_preorder (hu : u ∈ preorderAll trees) (ht : t ∈ u.preorder) :
    t ∈ preorderAll trees := by
  rw [preorder_eq, List.mem_cons] at ht
  rcases ht with rfl | ht
  · exact hu
  · exact mem_preorderAll_trans hu ht

/-- What is below a node of a tree is below the tree. -/
theorem mem_below_trans (hu : u ∈ t.preorder) {v : Tree} (hv : v ∈ preorderAll u.children) :
    v ∈ preorderAll t.children := by
  rw [preorder_eq, List.mem_cons] at hu
  rcases hu with rfl | hu
  · exact hv
  · exact mem_preorderAll_trans hu hv

theorem mem_preorder_trans (hu : u ∈ t.preorder) {v : Tree} (hv : v ∈ u.preorder) :
    v ∈ t.preorder := by
  have hall : preorderAll [t] = t.preorder := by
    rw [preorderAll_cons, preorderAll_nil, List.append_nil]
  rw [← hall] at hu ⊢
  exact mem_preorderAll_of_preorder hu hv

end Tree

end SyntaxForest
