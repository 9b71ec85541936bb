import SyntaxForest.Inventory.Asynchrony
import SyntaxForest.Proofs.Places

/-!
# What belongs to a scope

Some nodes open a scope: a type declaration one of members, a method or a lambda one of
statements. A node belongs to the nearest scope above it, the last of its proper ancestors that
opens one (`Tree.nearest?`). The inventories do not look for ancestors. They walk down from the
node that opens the scope and do not pass a node that opens another, and what they find are the
nodes that belong to the scope, in pre-order (`map_snd_own`).

Such a walk is a pre-order in which some nodes are not entered, and some are not kept
(`prunedPreorder`). The nodes it comes upon are those without an ancestor that is not entered
(`map_snd_pruned`).
-/

namespace SyntaxForest.Tree

/-- The places above a place, the root first. -/
def above (p : Place) : List Place := p.inits.dropLast

/-- **The nearest ancestor** of a place that opens a scope. -/
def nearest? (opens : Tree → Bool) (root : Tree) (p : Place) : Option Place :=
  (above p).reverse.find? fun q => (root.at? q).any opens

/-- **What belongs to the scope** that is opened at a place, in pre-order. -/
def own (opens : Tree → Bool) (root : Tree) (p : Place) : List (Place × Tree) :=
  root.placed.filter fun x => nearest? opens root x.1 = some p

variable {opens : Tree → Bool} {root t c : Tree} {p q : Place} {i j : Nat}

/-! ## Nearest ancestors -/

theorem above_cons (i : Nat) (p : Place) : above (i :: p) = [] :: (above p).map (i :: ·) := by
  rw [above, above, List.inits_cons, List.dropLast_cons_of_ne_nil, List.map_dropLast]
  cases p <;> simp

theorem nearest?_nil : nearest? opens root [] = none := rfl

/-- The nearest scope is one below the first step, or else the root's. -/
theorem nearest?_cons (h : t.children[i]? = some c) : nearest? opens t (i :: p)
    = ((nearest? opens c p).map (i :: ·)).or (if opens t then some [] else none) := by
  have hat : ∀ q : Place, t.at? (i :: q) = c.at? q := fun q => by rw [at?, h]; rfl
  rw [nearest?, above_cons, List.reverse_cons, List.find?_append, ← List.map_reverse,
    List.find?_map]
  simp only [nearest?, Function.comp_def, hat, List.find?_singleton]
  rfl

theorem nearest?_cons_eq_root (h : t.children[i]? = some c) :
    nearest? opens t (i :: p) = some [] ↔ nearest? opens c p = none ∧ opens t = true := by
  rw [nearest?_cons h]
  cases opens t <;> cases nearest? opens c p <;> simp

theorem nearest?_cons_eq_below (h : t.children[i]? = some c) :
    nearest? opens t (i :: p) = some (j :: q) ↔ i = j ∧ nearest? opens c p = some q := by
  rw [nearest?_cons h]
  cases opens t <;> cases nearest? opens c p <;> simp

/-- Nothing belongs to two scopes. -/
theorem disjoint_own (h : p ≠ q) : (own opens root p).Disjoint (own opens root q) := by
  intro x hp hq
  have hp := of_decide_eq_true (List.mem_filter.mp hp).2
  have hq := of_decide_eq_true (List.mem_filter.mp hq).2
  exact h (Option.some.inj (hp.symm.trans hq))

/-! ## Ancestors -/

/-- **The ancestors** of a place, the root first. -/
def ancestors (t : Tree) (p : Place) : List Tree := (above p).filterMap t.at?

theorem ancestors_nil : t.ancestors [] = [] := rfl

theorem ancestors_cons (h : t.children[i]? = some c) :
    t.ancestors (i :: p) = t :: c.ancestors p := by
  have hat : t.at? ∘ (i :: ·) = c.at? := funext fun q => by rw [Function.comp_apply, at?, h]; rfl
  rw [ancestors, above_cons, List.filterMap_cons, List.filterMap_map, hat]
  rfl

/-- A node is in no scope if none of its ancestors opens one. -/
theorem nearest?_eq_none_iff :
    nearest? opens t p = none ↔ (t.ancestors p).all (fun a => !opens a) = true := by
  simp only [nearest?, ancestors, List.find?_eq_none, List.mem_reverse, List.all_eq_true,
    List.mem_filterMap, Option.any_eq_true]
  grind

/-! ## Pre-order with some subtrees cut -/

mutual

/-- **Pre-order of some nodes by recursion**: the node if it is `kept`, then what is below it if
it is `entered`. -/
def prunedPreorder (kept entered : Tree → Bool) : Tree → List Tree
  | node k p c =>
    (if kept (node k p c) then [node k p c] else [])
      ++ if entered (node k p c) then prunedPreorderAll kept entered c else []

/-- The pruned pre-orders of several trees, one after another. -/
def prunedPreorderAll (kept entered : Tree → Bool) : List Tree → List Tree
  | [] => []
  | t :: rest => prunedPreorder kept entered t ++ prunedPreorderAll kept entered rest

end

theorem prunedPreorderAll_eq_flatMap (kept entered : Tree → Bool) (ts : List Tree) :
    prunedPreorderAll kept entered ts = ts.flatMap (prunedPreorder kept entered) := by
  induction ts with
  | nil => rfl
  | cons t rest ih => rw [prunedPreorderAll, ih, List.flatMap_cons]

theorem prunedPreorder_eq (kept entered : Tree → Bool) (t : Tree) : prunedPreorder kept entered t
    = (if kept t then [t] else [])
      ++ if entered t then t.children.flatMap (prunedPreorder kept entered) else [] := by
  cases t
  rw [prunedPreorder, prunedPreorderAll_eq_flatMap]
  rfl

theorem isRecursion_prunedPreorder (kept entered : Tree → Bool) :
    (traversal kept entered).IsRecursion (prunedPreorder kept entered) := fun t => by
  rw [prunedPreorder_eq]
  cases hentered : entered t <;> simp [traversal, hentered]

/-- **Which nodes are kept** makes no difference to which are come upon. -/
theorem prunedPreorder_eq_filter (kept entered : Tree → Bool) (t : Tree) :
    prunedPreorder kept entered t = (prunedPreorder (fun _ => true) entered t).filter kept := by
  induction t using childrenInduction with
  | h t ih =>
    have hbelow : t.children.flatMap (prunedPreorder kept entered)
        = (t.children.flatMap (prunedPreorder (fun _ => true) entered)).filter kept := by
      rw [List.filter_flatMap]
      exact List.flatMap_congr ih
    rw [prunedPreorder_eq, prunedPreorder_eq, List.filter_append, hbelow, if_pos rfl]
    cases hkept : kept t <;> cases entered t <;> simp [hkept]

/-- Nothing cut, then what is below a node, then the node as well. -/
example :
    let t : Tree := .node "A" [] [.node "B" [] [.node "C" [] []], .node "D" [] []]
    let uncut (n : Tree) : Bool := n.kind != "B"
    t.preorder.map kind = ["A", "B", "C", "D"]
      ∧ (prunedPreorder (fun _ => true) uncut t).map kind = ["A", "B", "D"]
      ∧ (prunedPreorder uncut uncut t).map kind = ["A", "D"] := by
  decide

/-! ## Walks that do not pass a node -/

/-- The work list is a stack onto which nothing is put below a node where it stops. -/
theorem walkUpTo_finds (stop : Tree → Bool) (ts : List Tree) :
    (traversal (fun _ => true) fun t => !stop t).Finds ts (walkUpTo stop ts) := by
  induction ts using walkUpTo.induct with
  | case1 =>
    rw [walkUpTo]
    exact .nil
  | case2 t waiting past through =>
    rw [walkUpTo]
    split
    · next hstop => exact finds_cons_passed (by rw [hstop, Bool.not_true]) past
    · next hstop => exact finds_cons_entered (by simpa using hstop) through

/-- The work list is a stack from which a node that is skipped is taken, and nothing is put. -/
theorem walkWithout_finds (skip : Tree → Bool) (ts : List Tree) :
    (traversal (fun t => !skip t) fun t => !skip t).Finds ts (walkWithout skip ts) := by
  induction ts using walkWithout.induct skip with
  | case1 =>
    rw [walkWithout]
    exact .nil
  | case2 t waiting hskip past =>
    have hpassed : (!skip t) = false := by rw [hskip, Bool.not_true]
    have hfinds := finds_cons_passed hpassed past
    rw [walkWithout, if_pos hskip]
    rwa [if_neg (Bool.eq_false_iff.mp hpassed), List.nil_append] at hfinds
  | case3 t waiting hskip through =>
    have hentered : (!skip t) = true := by simpa using hskip
    have hfinds := finds_cons_entered hentered through
    rw [walkWithout, if_neg hskip]
    rwa [if_pos hentered] at hfinds

/-- **A walk up to some nodes is a recursion** that enters the others. -/
theorem walkUpTo_eq (stop : Tree → Bool) (ts : List Tree) :
    walkUpTo stop ts = ts.flatMap (prunedPreorder (fun _ => true) fun t => !stop t) :=
  (walkUpTo_finds stop ts).eq_flatMap (isRecursion_prunedPreorder _ _)

/-- **A walk without some nodes is a recursion** that neither keeps nor enters them. -/
theorem walkWithout_eq_flatMap (skip : Tree → Bool) (ts : List Tree) :
    walkWithout skip ts = ts.flatMap (prunedPreorder (fun t => !skip t) fun t => !skip t) :=
  (walkWithout_finds skip ts).eq_flatMap (isRecursion_prunedPreorder _ _)

theorem walkUpTo_singleton (stop : Tree → Bool) (t : Tree) :
    walkUpTo stop [t] = prunedPreorder (fun _ => true) (fun t => !stop t) t := by
  rw [walkUpTo_eq, List.flatMap_singleton]

/-- **A walk by recursion**: the node, and what is below it unless it stops there. -/
theorem walkUpTo_cons (stop : Tree → Bool) (t : Tree) (rest : List Tree) :
    walkUpTo stop (t :: rest)
      = t :: ((if stop t then [] else walkUpTo stop t.children) ++ walkUpTo stop rest) := by
  simp only [walkUpTo_eq, List.flatMap_cons]
  rw [prunedPreorder_eq]
  cases stop t <;> simp

theorem walkUpTo_eq_flatMap (stop : Tree → Bool) (ts : List Tree) :
    walkUpTo stop ts = ts.flatMap fun t => walkUpTo stop [t] := by
  rw [walkUpTo_eq, funext (walkUpTo_singleton stop)]

/-- **Leaving nodes out** with what is below them is stopping there and leaving out the nodes
where it stopped. -/
theorem walkWithout_eq (skip : Tree → Bool) (ts : List Tree) :
    walkWithout skip ts = (walkUpTo skip ts).filter fun t => !skip t := by
  rw [walkWithout_eq_flatMap, walkUpTo_eq, List.filter_flatMap]
  exact List.flatMap_congr fun t _ => prunedPreorder_eq_filter ..

/-! ## Scopes and walks -/

/-- Nodes are picked below each child by itself. -/
theorem map_snd_filter_below (keep : Place × Tree → Bool) (t : Tree) :
    (t.placed.tail.filter keep).map Prod.snd
      = t.children.zipIdx.flatMap fun x =>
          (x.1.placed.filter fun y => keep (x.2 :: y.1, y.2)).map Prod.snd := by
  have hbelow : ∀ x : Tree × Nat,
      ((x.1.placed.map fun y => (x.2 :: y.1, y.2)).filter keep).map Prod.snd
        = (x.1.placed.filter fun y => keep (x.2 :: y.1, y.2)).map Prod.snd := fun x => by
    simp [List.filter_map, Function.comp_def]
  rw [placed_eq, List.tail_cons, List.filter_flatMap, List.map_flatMap]
  simp only [hbelow]

/-- Nodes are picked at the root and below each child by itself. -/
theorem map_snd_filter_placed (keep : Place × Tree → Bool) (t : Tree) :
    (t.placed.filter keep).map Prod.snd
      = (if keep ([], t) then [t] else []) ++ t.children.zipIdx.flatMap fun x =>
          (x.1.placed.filter fun y => keep (x.2 :: y.1, y.2)).map Prod.snd := by
  have hroot : t.placed = ([], t) :: t.placed.tail := by
    rw [placed_eq, List.tail_cons]
  rw [← map_snd_filter_below, hroot, List.filter_cons, List.tail_cons]
  split <;> rfl

/-- **A pruned pre-order by places**: the nodes that are kept and have no ancestor that is not
entered. -/
theorem map_snd_pruned (kept entered : Tree → Bool) (t : Tree) :
    (t.placed.filter fun x => kept x.2 && (t.ancestors x.1).all entered).map Prod.snd
      = prunedPreorder kept entered t := by
  induction t using childrenInduction with
  | h t ih =>
    rw [map_snd_filter_placed, prunedPreorder_eq, ancestors_nil, List.all_nil, Bool.and_true]
    refine congrArg _ ?_
    cases hentered : entered t with
    | false =>
      rw [if_neg Bool.false_ne_true, List.flatMap_eq_nil_iff]
      intro x hx
      simp [ancestors_cons (List.mem_zipIdx_iff_getElem?.mp hx), hentered]
    | true =>
      rw [if_pos rfl]
      refine flatMap_zipIdx fun x hx => ?_
      rw [← ih x.1 (fst_mem_of_mem_zipIdx hx)]
      simp [ancestors_cons (List.mem_zipIdx_iff_getElem?.mp hx), hentered]

/-- **What is below the root** of it: the root itself is not asked for. -/
theorem map_snd_pruned_below (kept entered : Tree → Bool) (t : Tree) :
    (t.placed.tail.filter fun x => kept x.2 && (t.ancestors x.1).tail.all entered).map Prod.snd
      = t.children.flatMap (prunedPreorder kept entered) := by
  rw [map_snd_filter_below]
  refine flatMap_zipIdx fun x hx => ?_
  rw [← map_snd_pruned]
  simp [ancestors_cons (List.mem_zipIdx_iff_getElem?.mp hx)]

/-- **What is in no scope** is what a walk from the root finds that does not pass a node that
opens one. -/
theorem map_snd_free (opens : Tree → Bool) (t : Tree) :
    (t.placed.filter fun x => nearest? opens t x.1 = none).map Prod.snd
      = walkUpTo opens [t] := by
  rw [walkUpTo_singleton, ← map_snd_pruned]
  simp only [nearest?_eq_none_iff, Bool.decide_eq_true, Bool.true_and]

/-- **What belongs to a scope** is what a walk below the node that opens it finds that does not
pass another such node. -/
theorem map_snd_own (hp : root.at? p = some t) (hopen : opens t = true) :
    (own opens root p).map Prod.snd = walkUpTo opens t.children := by
  unfold own
  induction p generalizing root with
  | nil =>
    cases hp
    rw [map_snd_filter_placed, if_neg (by simp [nearest?_nil]), List.nil_append,
      walkUpTo_eq_flatMap]
    refine flatMap_zipIdx fun x hx => ?_
    rw [← map_snd_free]
    simp [nearest?_cons_eq_root (List.mem_zipIdx_iff_getElem?.mp hx), hopen]
  | cons i p ih =>
    obtain ⟨child, hchild, hat⟩ := Option.bind_eq_some_iff.mp hp
    rw [map_snd_filter_placed, if_neg (by simp [nearest?_nil]), List.nil_append, ← ih hat,
      flatMap_zipIdx_single hchild]
    · simp [nearest?_cons_eq_below hchild]
    · intro x hx hne
      simp [nearest?_cons_eq_below (List.mem_zipIdx_iff_getElem?.mp hx), hne]

end SyntaxForest.Tree
