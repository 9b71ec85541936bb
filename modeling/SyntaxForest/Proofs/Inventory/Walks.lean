import SyntaxForest.Proofs.Inventory.Members
import SyntaxForest.Proofs.Inventory.Suspensions

/-!
# Walks by a stack are recursions

Trees and constructs are walked by a stack, and so are the members of a type and the body of a
method. The stack is pruned in one of three ways: nothing is cut, or what is below a node, or the
node as well. Each walk finds what a recursion over the children finds (`walks_recursive`).

What a pruned walk finds below a node is told by ancestors as well (`Tree.PrunedBelow`): the nodes
that are themselves kept and have none above them that is not entered. The node where the walk
starts is not asked, so that a type has members though it is a type, and a method a body.
-/

namespace SyntaxForest

open Template

namespace Tree

variable {kept entered : Tree → Bool} {t : Tree} {found : List Tree}

/-! ## The full walk -/

/-- **The node, then each child's walk.** -/
theorem walk_eq_cons (t : Tree) : t.walk = t :: t.children.flatMap walk := by
  rw [walk_eq, preorder_eq, preorderAll_eq_flatMap, funext walk_eq]

theorem nodeCount_eq (t : Tree) : t.nodeCount = 1 + (t.children.map nodeCount).sum := by
  rw [nodeCount, walk_eq_cons, List.length_cons, List.length_flatMap, Nat.add_comm]
  rfl

/-! ## Pruned walks -/

/-- **A pruned walk below a node** `t`: what the stack finds from the children of `t`, what the
recursion finds at them, and the nodes below `t` that are kept and have none above them, up to
`t`, that is not entered. -/
structure PrunedBelow (kept entered : Tree → Bool) (t : Tree) (found : List Tree) : Prop where
  stack : (traversal kept entered).Finds t.children found
  recursion : found = t.children.flatMap (prunedPreorder kept entered)
  places : found = (t.placed.tail.filter fun x =>
    kept x.2 && (t.ancestors x.1).tail.all entered).map Prod.snd

/-- The stack decides what the recursion and the ancestors say. -/
theorem PrunedBelow.of_finds (h : (traversal kept entered).Finds t.children found) :
    PrunedBelow kept entered t found := by
  have hrecursion := h.eq_flatMap (isRecursion_prunedPreorder kept entered)
  exact ⟨h, hrecursion, hrecursion.trans (map_snd_pruned_below kept entered t).symm⟩

end Tree

/-- **The construct, then those of each construct nested in it.** -/
theorem Template.Segment.flatten_eq_cons (s : Segment) :
    s.flatten = s :: s.children.flatMap flatten := by
  rw [flatten_eq, preorder_eq, preorderAll_eq_flatMap, funext flatten_eq]

/-- **Walks by a stack are recursions.** A walk is the node and then the walks of its children,
and so is the list of nested constructs; the descendants, the number of nodes and the nodes of
some categories are those of the recursion. The members of a type are cut below the types among
them, which are members themselves. The body of a method is cut at the scopes and methods in it,
which are left out as well. -/
theorem walks_recursive (v : Vocabulary) (t : Tree) (s : Segment) :
    (Tree.fullTraversal.Finds [t] t.walk
        ∧ t.walk = t.preorder
        ∧ t.walk = t :: t.children.flatMap Tree.walk)
      ∧ t.descendants = t.preorder.tail
      ∧ t.nodeCount = 1 + (t.children.map Tree.nodeCount).sum
      ∧ (∀ kinds, t.findAll kinds = t.preorder.filter fun n => kinds.contains n.kind)
      ∧ (Segment.traversal.Finds [s] s.flatten
        ∧ s.flatten = s.preorder
        ∧ s.flatten = s :: s.children.flatMap Segment.flatten)
      ∧ Tree.PrunedBelow (fun _ => true) (fun n => !v.opensMembers n) t (directMembers v t)
      ∧ Tree.PrunedBelow (fun n => !v.opensBody n) (fun n => !v.opensBody n) t
        (methodBody v t) := by
  refine ⟨⟨?_, t.walk_eq, t.walk_eq_cons⟩, ?_, t.nodeCount_eq, fun kinds => ?_,
    ⟨?_, s.flatten_eq, s.flatten_eq_cons⟩, ?_, ?_⟩
  · exact Tree.walkFrom_finds [t]
  · rw [Tree.descendants, Tree.walk_eq, List.drop_one]
  · rw [Tree.findAll, Tree.walk_eq]
  · exact Segment.flattenFrom_finds [s]
  · exact .of_finds (Tree.walkUpTo_finds v.opensMembers t.children)
  · exact .of_finds (Tree.walkWithout_finds v.opensBody t.children)

end SyntaxForest
