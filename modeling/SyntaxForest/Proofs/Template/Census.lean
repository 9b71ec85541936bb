import SyntaxForest.Proofs.Template.Siblings

/-!
# No node is lost

What an insertion does to the nodes of a tree is an exchange: the children at the end of its
way are replaced, and of these the texts that are overlapped are replaced by their pieces. So
the new tree and those texts have together the nodes of the old tree, the inserted node and the
pieces, each as often (`insert_headsAll`). A node is known here by its category and its
properties, since what is below it may change.
-/

namespace SyntaxForest

namespace Tree

/-- **The nodes of a tree**, each without what is below it. -/
def heads (t : Tree) : List (String × Properties) := t.preorder.map head

/-- The nodes of several trees. -/
def headsAll (trees : List Tree) : List (String × Properties) := (preorderAll trees).map head

variable {trees trees' : List Tree}

theorem heads_eq (t : Tree) : t.heads = t.head :: headsAll t.children := by
  rw [heads, preorder_eq]
  rfl

@[simp] theorem headsAll_nil : headsAll [] = [] := rfl

theorem headsAll_cons (t : Tree) (rest : List Tree) :
    headsAll (t :: rest) = t.heads ++ headsAll rest := by
  rw [headsAll, preorderAll_cons, List.map_append]
  rfl

theorem headsAll_append (a b : List Tree) : headsAll (a ++ b) = headsAll a ++ headsAll b := by
  rw [headsAll, preorderAll_append, List.map_append]
  rfl

theorem headsAll_perm (h : trees.Perm trees') : (headsAll trees).Perm (headsAll trees') := by
  rw [headsAll, headsAll, preorderAll_eq_flatMap, preorderAll_eq_flatMap]
  exact (h.flatMap_right preorder).map head

end Tree

namespace Template

open SyntaxForest.Template.Span (ofTree)
open SyntaxForest.Tree (headsAll headsAll_cons headsAll_append headsAll_perm heads_eq)

variable {s : Source} {span : Span} {t t' u root : Tree} {old new cs : List Tree}

/-- **A change of the children** changes the nodes of the tree by those of the children. -/
theorem AtHome.headsAll_perm (h : AtHome span old new t t') :
    (headsAll (t' :: old)).Perm (headsAll (t :: new)) := by
  induction h with
  | here =>
    rw [headsAll_cons, headsAll_cons, heads_eq, heads_eq]
    exact List.perm_append_comm.cons _
  | @under kind props before after u u' _ _ _ ih =>
    have hnode : ∀ w : Tree, (Tree.node kind props (before ++ w :: after)).heads
        = [(kind, props)] ++ (headsAll before ++ (w.heads ++ headsAll after)) := by
      intro w
      rw [heads_eq, ← headsAll_cons, ← headsAll_append]
      rfl
    -- what stands around the changed child, and the head above it, counts on both sides
    refine List.perm_iff_count.mpr fun k => ?_
    have hcount := ih.count_eq k
    simp only [headsAll_cons, hnode, List.count_append] at hcount ⊢
    omega

/-- Putting a node among others adds its nodes to theirs. -/
theorem headsAll_insertByStart (u : Tree) (cs : List Tree) :
    (headsAll (insertByStart u cs)).Perm (headsAll (u :: cs)) := by
  rw [insertByStart_eq]
  refine headsAll_perm (List.perm_middle.trans ?_)
  rw [List.takeWhile_append_dropWhile]

/-- **Placing loses no node.** -/
theorem place_heads (u t : Tree) : (place u t).heads.Perm (headsAll [u, t]) := by
  refine List.perm_iff_count.mpr fun k => ?_
  have hway := (place_atHome u t).headsAll_perm.count_eq k
  have hhere := (headsAll_insertByStart u (siblingsAt (ofTree u) t)).count_eq k
  simp only [headsAll_cons, Tree.headsAll_nil, List.count_append, List.count_nil] at hway hhere ⊢
  omega

/-- **Placing nodes below another** keeps the nodes of all. -/
theorem foldl_place_heads (us : List Tree) (t : Tree) :
    (us.foldl (fun t u => place u t) t).heads.Perm (headsAll (t :: us)) := by
  induction us generalizing t with
  | nil => rw [List.foldl_nil, headsAll_cons, Tree.headsAll_nil, List.append_nil]
  | cons u us ih =>
    refine (ih (place u t)).trans (List.perm_iff_count.mpr fun k => ?_)
    have hplace := (place_heads u t).count_eq k
    simp only [headsAll_cons, Tree.headsAll_nil, List.count_append, List.count_nil] at hplace ⊢
    omega

/-! ## Inserting -/

/-- **The texts among siblings that a node overlaps.** -/
def overlapped (t : Tree) (siblings : List Tree) : List Tree :=
  siblings.filter fun u => isTextLeaf u && (ofTree u).overlaps (ofTree t)

/-- **The pieces** of the texts among siblings that a node overlaps. -/
def pieces (s : Source) (t : Tree) (siblings : List Tree) : List Tree :=
  (overlapped t siblings).flatMap fun u => cutText s (ofTree u) (ofTree t)

theorem mem_overlapped : u ∈ overlapped t cs
    ↔ u ∈ cs ∧ isTextLeaf u = true ∧ (ofTree u).overlaps (ofTree t) = true := by
  rw [overlapped, List.mem_filter, Bool.and_eq_true]

/-- **Cutting** exchanges the overlapped texts for their pieces. -/
theorem cutSiblings_perm (s : Source) (t : Tree) (cs : List Tree) :
    (cutSiblings s t cs ++ overlapped t cs).Perm (cs ++ pieces s t cs) := by
  induction cs with
  | nil => rfl
  | cons c cs ih =>
    unfold cutSiblings pieces overlapped at ih ⊢
    rw [List.flatMap_cons, List.filter_cons, cutAt]
    split
    · rw [List.flatMap_cons, List.append_assoc]
      refine ((List.perm_middle.append_left _).trans List.perm_middle).trans (List.Perm.cons c ?_)
      exact (ih.append_left _).trans (List.perm_append_comm_assoc ..)
    · exact ih.cons c

/-- **What is below an inserted node**: its own, and what lies inside its span. -/
theorem headsAll_wholeOf_children (s : Source) (t : Tree) (cs : List Tree) :
    (headsAll (wholeOf s t cs).children).Perm (headsAll (t.children ++ insideOf s t cs)) := by
  have hwhole : (wholeOf s t cs).heads.Perm (headsAll (t :: insideOf s t cs)) :=
    foldl_place_heads (insideOf s t cs) t
  rw [heads_eq, headsAll_cons, heads_eq, wholeOf_head, List.cons_append, List.perm_cons] at hwhole
  rwa [headsAll_append]

/-- Every cut sibling is inside the node or outside it. -/
theorem insideOf_append_outsideOf (s : Source) (t : Tree) (cs : List Tree) :
    (insideOf s t cs ++ outsideOf s t cs).Perm (cutSiblings s t cs) :=
  List.filter_append_perm ..

/-- An insertion leaves the node, with what it takes over, and what it leaves outside. -/
theorem insertAmong_perm (s : Source) (t : Tree) (cs : List Tree) :
    (insertAmong s t cs).Perm (wholeOf s t cs :: outsideOf s t cs) := by
  rw [insertAmong_eq]
  refine List.perm_middle.trans ?_
  rw [List.takeWhile_append_dropWhile]

/-- **What stands among siblings after an insertion**: the node and the cut siblings. -/
theorem headsAll_insertAmong (s : Source) (t : Tree) (cs : List Tree) :
    (headsAll (insertAmong s t cs)).Perm (headsAll (t :: cutSiblings s t cs)) := by
  refine List.perm_iff_count.mpr fun k => ?_
  have hstand := (headsAll_perm (insertAmong_perm s t cs)).count_eq k
  have hsplit := (headsAll_perm (insideOf_append_outsideOf s t cs)).count_eq k
  have hwhole : (wholeOf s t cs).heads.count k = (headsAll (t :: insideOf s t cs)).count k :=
    (foldl_place_heads (insideOf s t cs) t).count_eq k
  simp only [headsAll_cons, headsAll_append, List.count_append] at hstand hsplit hwhole ⊢
  omega

/-- **An insertion loses no node and makes none but the pieces**: with the texts that it cuts,
the new tree has the nodes of the old one, the node and the pieces. -/
theorem insert_headsAll (s : Source) (t root : Tree) :
    (headsAll (insert s t root :: overlapped t (siblingsAt (ofTree t) root))).Perm
      (headsAll (root :: t :: pieces s t (siblingsAt (ofTree t) root))) := by
  refine List.perm_iff_count.mpr fun k => ?_
  have hway := (insert_atHome s t root).headsAll_perm.count_eq k
  have hamong := (headsAll_insertAmong s t (siblingsAt (ofTree t) root)).count_eq k
  have hcut := (headsAll_perm (cutSiblings_perm s t (siblingsAt (ofTree t) root))).count_eq k
  simp only [headsAll_cons, headsAll_append, List.count_append] at hway hamong hcut ⊢
  omega

end Template

end SyntaxForest
