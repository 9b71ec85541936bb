import Mathlib.Data.List.Infix
import Mathlib.Data.List.Lex
import SyntaxForest.Proofs.Preorder

/-!
# Places in a tree

Two nodes of a tree may look the same, down to everything below them, so what is said of one node
among the others is said of its *place*: the way to it from the root, as the numbers of the
children that are taken. `Tree.placed` lists the nodes with their places, in the order in which
they are walked (`map_snd_placed`); it lists each node that is there (`mem_placed`), and the
places increase in the order of the dictionary, so that none is listed twice
(`placed_increase`).
-/

namespace SyntaxForest.Tree

/-- **A place in a tree**: which child to take, which child of that one, and so on. -/
abbrev Place := List Nat

/-- The node at a place. -/
def at? : Tree → Place → Option Tree
  | t, [] => some t
  | t, i :: p => t.children[i]?.bind fun c => at? c p

mutual

/-- **The nodes with their places**, in pre-order. -/
def placed : Tree → List (Place × Tree)
  | node k p c => ([], node k p c) :: placedFrom 0 c

/-- The nodes of several trees, numbered on from `i`, with their places. -/
def placedFrom (i : Nat) : List Tree → List (Place × Tree)
  | [] => []
  | t :: rest => (placed t).map (fun x => (i :: x.1, x.2)) ++ placedFrom (i + 1) rest

end

variable {t n : Tree} {p : Place}

/-! ## Lists with their places -/

section Numbered

variable {α β : Type} {l : List α} {a : α} {i : Nat} {f : α × Nat → List β}

/-- Numbers that are not looked at make no difference. -/
theorem flatMap_zipIdx {g : α → List β} (h : ∀ x ∈ l.zipIdx, f x = g x.1) :
    l.zipIdx.flatMap f = l.flatMap g := by
  rw [List.flatMap_congr h, ← List.flatMap_map, List.zipIdx_map_fst]

/-- Only one number counts. -/
theorem flatMap_zipIdx_single (ha : l[i]? = some a) (h : ∀ x ∈ l.zipIdx, x.2 ≠ i → f x = []) :
    l.zipIdx.flatMap f = f (a, i) := by
  obtain ⟨hi, rfl⟩ := List.getElem?_eq_some_iff.mp ha
  have hsplit : l.zipIdx = (l.take i).zipIdx ++ (l[i], i) :: (l.drop (i + 1)).zipIdx (i + 1) := by
    conv_lhs => rw [← List.take_append_drop i l, List.drop_eq_getElem_cons hi]
    rw [List.zipIdx_append, List.zipIdx_cons, List.length_take, Nat.min_eq_left hi.le,
      Nat.zero_add]
  rw [hsplit] at h ⊢
  have hfront : ((l.take i).zipIdx).flatMap f = [] := List.flatMap_eq_nil_iff.mpr fun x hx =>
    h x (by simp [hx]) (by grind)
  have hback : ((l.drop (i + 1)).zipIdx (i + 1)).flatMap f = [] :=
    List.flatMap_eq_nil_iff.mpr fun x hx => h x (by simp [hx]) (by grind)
  rw [List.flatMap_append, List.flatMap_cons, hfront, hback, List.nil_append, List.append_nil]

theorem fst_mem_of_mem_zipIdx {x : α × Nat} (h : x ∈ l.zipIdx) : x.1 ∈ l :=
  List.mem_of_getElem? (List.mem_zipIdx_iff_getElem?.mp h)

end Numbered

/-! ## The nodes of a tree -/

theorem placedFrom_eq (i : Nat) (ts : List Tree) : placedFrom i ts
    = (ts.zipIdx i).flatMap fun x => x.1.placed.map fun y => (x.2 :: y.1, y.2) := by
  induction ts generalizing i with
  | nil => rfl
  | cons t rest ih => rw [placedFrom, ih, List.zipIdx_cons, List.flatMap_cons]

theorem placed_eq (t : Tree) : t.placed
    = ([], t) :: t.children.zipIdx.flatMap fun x => x.1.placed.map fun y => (x.2 :: y.1, y.2) := by
  cases t
  exact congrArg _ (placedFrom_eq ..)

/-- **The nodes that are listed** are those that are there. -/
theorem mem_placed : (p, n) ∈ t.placed ↔ t.at? p = some n := by
  induction t using childrenInduction generalizing p with
  | h t ih =>
    rw [placed_eq]
    cases p with
    | nil => simp [at?, eq_comm]
    | cons i p =>
      calc _ ↔ ∃ c, t.children[i]? = some c ∧ (p, n) ∈ c.placed := by
            simp [List.mem_zipIdx_iff_getElem?]
        _ ↔ ∃ c, t.children[i]? = some c ∧ c.at? p = some n :=
            exists_congr fun c => and_congr_right fun hc => ih c (List.mem_of_getElem? hc)
        _ ↔ t.at? (i :: p) = some n := Option.bind_eq_some_iff.symm

/-- **The nodes are listed as they are walked.** -/
theorem map_snd_placed (t : Tree) : t.placed.map Prod.snd = t.walk := by
  rw [walk_eq]
  induction t using childrenInduction with
  | h t ih =>
    rw [placed_eq, preorder_eq, preorderAll_eq_flatMap, List.map_cons, List.map_flatMap]
    refine congrArg _ (flatMap_zipIdx fun x hx => ?_)
    rw [← ih x.1 (fst_mem_of_mem_zipIdx hx), List.map_map]
    rfl

/-- **Places increase in pre-order**: a node comes before those below it, and these before the
nodes that follow it. -/
theorem placed_increase (t : Tree) : (t.placed.map Prod.fst).Pairwise (· < ·) := by
  induction t using childrenInduction with
  | h t ih =>
    rw [placed_eq, List.map_cons, List.pairwise_cons, List.map_flatMap, List.pairwise_flatMap]
    refine ⟨fun q hq => ?_, fun x hx => ?_, ?_⟩
    · obtain ⟨x, -, hq⟩ := List.mem_flatMap.mp hq
      simp only [List.map_map, List.mem_map] at hq
      obtain ⟨y, -, rfl⟩ := hq
      exact List.nil_lt_cons ..
    · have h := ih x.1 (fst_mem_of_mem_zipIdx hx)
      simp only [List.pairwise_map] at h ⊢
      exact h.imp fun hlt => List.cons_lt_cons_iff.mpr (.inr ⟨rfl, hlt⟩)
    · have hnumbers : (t.children.zipIdx.map Prod.snd).Pairwise (· < ·) := by
        rw [List.zipIdx_map_snd]
        exact List.pairwise_lt_range'
      refine (List.pairwise_map.mp hnumbers).imp fun {x y} hxy p hp q hq => ?_
      simp only [List.mem_map] at hp hq
      obtain ⟨-, ⟨a, -, rfl⟩, rfl⟩ := hp
      obtain ⟨-, ⟨b, -, rfl⟩, rfl⟩ := hq
      exact List.cons_lt_cons_iff.mpr (.inl hxy)

theorem nodup_placed (t : Tree) : (t.placed.map Prod.fst).Nodup :=
  t.placed_increase.imp fun h => ne_of_lt h

end SyntaxForest.Tree
