import Mathlib.Data.Fintype.EquivFin
import Mathlib.Data.List.Forall2
import Mathlib.Data.List.Nodup
import Mathlib.Logic.Relation
import Mathlib.Order.WellFounded
import SyntaxForest.Proofs.Forest.Session
import SyntaxForest.Proofs.Preorder

/-!
# Walks of a forest

A walk of a forest starts from a node and goes on to its children, to theirs and so on, with the
nodes that wait on a stack. Nothing marks a node that was visited: a node that occurs twice is
visited twice, and one that is among its own descendants is visited again and again.

A walk that ends bounds how deep the nodes are nested, so that the tree below the node can be
read out of the forest, and the walk of that tree shows the nodes that were visited, one by one
(`Visits.readTree`). Walks that end exist where the lists of children do not repeat and no node
is among its descendants (`Sound.exists_visits`): two children of one node have no descendant in
common, since every node has one owner.
-/

namespace SyntaxForest.Forest

open Relation

variable {f : Forest} {n m : NodeId} {stack waiting out : List NodeId}

/-- The children of a node. -/
def Child (f : Forest) (p c : NodeId) : Prop := c ∈ f.children p

/-- **Descendants**: the second node is a child of the first, or one of a child, and so on. -/
def Reaches (f : Forest) : NodeId → NodeId → Prop := TransGen f.Child

/-- **A walk that ends**, from a stack of nodes: the nodes that it visits, in turn. -/
inductive Visits (f : Forest) : List NodeId → List NodeId → Prop
  | done : Visits f [] []
  | visit (n : NodeId) (waiting out : List NodeId)
      (rest : Visits f (f.children n ++ waiting) out) :
      Visits f (n :: waiting) (n :: out)

/-- A tree has the category and the properties of a node. -/
def Shows (f : Forest) (n : NodeId) (t : Tree) : Prop :=
  t.kind = f.kind n ∧ t.properties = f.properties n

/-- **A node that carries a tree**: it is not its own descendant, and the walk from it ends,
visits it and its descendants, none of them twice, and shows the tree below it. -/
structure IsTree (f : Forest) (n : NodeId) : Prop where
  not_reaches : ¬f.Reaches n n
  walk : ∃ out t, f.Visits [n] out ∧ out.Nodup ∧ (∀ m, m ∈ out ↔ m = n ∨ f.Reaches n m)
    ∧ f.toTree? n = some t ∧ List.Forall₂ f.Shows out t.walk

/-! ## Walks that end -/

theorem Visits.append {more found : List NodeId} (h : f.Visits stack out)
    (hmore : f.Visits more found) : f.Visits (stack ++ more) (out ++ found) := by
  induction h with
  | done => exact hmore
  | visit n waiting out _ ih =>
    rw [List.append_assoc] at ih
    exact .visit n (waiting ++ more) (out ++ found) ih

theorem Visits.flatMap {found : NodeId → List NodeId} (h : ∀ n ∈ stack, f.Visits [n] (found n)) :
    f.Visits stack (stack.flatMap found) := by
  induction stack with
  | nil => exact .done
  | cons n waiting ih =>
    obtain ⟨hn, hwaiting⟩ := List.forall_mem_cons.mp h
    exact hn.append (ih hwaiting)

/-- What waits is visited, in the order in which it waits. -/
theorem Visits.sublist (h : f.Visits stack out) : stack.Sublist out := by
  induction h with
  | done => exact .slnil
  | visit n waiting out _ ih => exact ((List.sublist_append_right ..).trans ih).cons_cons n

/-- **What a walk visits**: what waits, with all descendants. -/
theorem Visits.mem_iff (h : f.Visits stack out) :
    m ∈ out ↔ ∃ n ∈ stack, ReflTransGen f.Child n m := by
  induction h with
  | done => simp
  | visit n waiting out _ ih =>
    simp only [List.mem_cons, ih, List.mem_append, or_and_right, exists_or, exists_eq_left]
    rw [ReflTransGen.cases_head_iff, eq_comm, or_assoc]
    rfl

theorem Visits.mem_iff_reaches (h : f.Visits [n] out) : m ∈ out ↔ m = n ∨ f.Reaches n m := by
  rw [h.mem_iff]
  simp only [List.mem_singleton, exists_eq_left, reflTransGen_iff_eq_or_transGen, Reaches]

/-- **No walk ends on a cycle.** -/
theorem Visits.not_reaches (h : f.Visits stack out) : ∀ n ∈ stack, ¬f.Reaches n n := by
  induction h with
  | done => exact fun _ hn => by cases hn
  | visit n waiting out _ ih =>
    refine List.forall_mem_cons.mpr
      ⟨fun hcycle => ?_, fun m hm => ih m (List.mem_append_right _ hm)⟩
    -- The next node on the cycle is on the cycle as well, and it is put on the stack.
    obtain ⟨c, hc, hback⟩ := TransGen.head'_iff.mp hcycle
    exact ih c (List.mem_append_left _ hc) (TransGen.tail' hback hc)

/-- A walk that repeats nothing finds no child twice. -/
theorem IsTree.nodup_children (h : f.IsTree n) : (f.children n).Nodup := by
  obtain ⟨out, t, hvisits, hnodup, -⟩ := h.walk
  cases hvisits with
  | visit _ _ out rest =>
    rw [List.append_nil] at rest
    exact (List.nodup_cons.mp hnodup).2.sublist rest.sublist

/-! ## Trees below nodes -/

theorem mapM_eq_some_iff {α β : Type} {read : α → Option β} {l : List α} {l' : List β} :
    l.mapM read = some l' ↔ List.Forall₂ (fun a b => read a = some b) l l' := by
  induction l generalizing l' with
  | nil =>
    rw [List.mapM_nil, List.forall₂_nil_left_iff]
    exact Option.some_inj.trans eq_comm
  | cons a l ih =>
    simp [List.mapM_cons, List.forall₂_cons_left_iff, Option.bind_eq_some_iff, ih, @eq_comm _ l']

/-- **Reading one level**: the node is there, and the trees below its children are read out. -/
theorem readTree_eq_some_iff {depth : Nat} {t : Tree} :
    f.readTree (depth + 1) n = some t ↔ ∃ cell kids, f.cells[n]? = some cell
      ∧ cell.children.mapM (f.readTree depth) = some kids
      ∧ t = .node cell.kind cell.properties kids := by
  simp [readTree, Option.bind_eq_some_iff, @eq_comm _ t]

/-- A tree that can be read out down to a depth is there at a greater one as well. -/
theorem readTree_mono {depth : Nat} {t : Tree} (h : f.readTree depth n = some t) :
    f.readTree (depth + 1) n = some t := by
  induction depth generalizing n t with
  | zero => simp [readTree] at h
  | succ depth ih =>
    obtain ⟨cell, kids, hcell, hkids, rfl⟩ := readTree_eq_some_iff.mp h
    refine readTree_eq_some_iff.mpr ⟨cell, kids, hcell, ?_, rfl⟩
    exact mapM_eq_some_iff.mpr ((mapM_eq_some_iff.mp hkids).imp fun _ _ => ih)

/-- **The trees of a walk.** A walk that ends visits no more nodes than trees are deep, so that
the trees below the nodes it starts from can be read out, and it shows them in pre-order. -/
theorem Visits.readTree (h : f.Visits stack out) (hin : ∀ n ∈ out, n < f.cells.size)
    {depth : Nat} (hdepth : out.length ≤ depth) :
    ∃ trees, stack.mapM (f.readTree depth) = some trees
      ∧ List.Forall₂ f.Shows out (Tree.preorderAll trees) := by
  induction h generalizing depth with
  | done => exact ⟨[], rfl, .nil⟩
  | visit n waiting out _ ih =>
    obtain ⟨hn, hout⟩ := List.forall_mem_cons.mp hin
    obtain ⟨depth, rfl⟩ := Nat.exists_eq_succ_of_ne_zero (Nat.ne_zero_of_lt hdepth)
    obtain ⟨trees, htrees, hshows⟩ := ih hout (Nat.le_of_succ_le_succ hdepth)
    rw [List.mapM_append] at htrees
    obtain ⟨kids, hkids, rest, hrest, rfl⟩ : ∃ kids, (f.children n).mapM (f.readTree depth)
        = some kids ∧ ∃ rest, waiting.mapM (f.readTree depth) = some rest
          ∧ trees = kids ++ rest := by
      simpa [Option.bind_eq_some_iff, @eq_comm _ trees] using htrees
    obtain ⟨cell, hcell⟩ : ∃ cell, f.cells[n]? = some cell :=
      ⟨_, Array.getElem?_eq_getElem hn⟩
    have hchildren : f.children n = cell.children := by rw [Forest.children, hcell]; rfl
    have hread : f.readTree (depth + 1) n = some (.node cell.kind cell.properties kids) :=
      readTree_eq_some_iff.mpr ⟨cell, kids, hcell, hchildren ▸ hkids, rfl⟩
    have hwaiting : waiting.mapM (f.readTree (depth + 1)) = some rest :=
      mapM_eq_some_iff.mpr ((mapM_eq_some_iff.mp hrest).imp fun _ _ => readTree_mono)
    refine ⟨.node cell.kind cell.properties kids :: rest, ?_, ?_⟩
    · rw [List.mapM_cons, hread, hwaiting]
      rfl
    · rw [Tree.preorderAll_cons, Tree.preorder_eq, List.cons_append, ← Tree.preorderAll_append]
      refine .cons ⟨?_, ?_⟩ hshows
      · rw [Forest.kind, hcell]
        rfl
      · rw [Forest.properties, hcell]
        rfl

namespace Session

variable {s : Session} {n m p c c' : NodeId}

/-! ## Walks of sound sessions -/

/-- Who holds a node holds its descendants. -/
theorem Sound.held_of_reflTransGen (hs : s.Sound) (hn : n ∈ s.held)
    (h : ReflTransGen s.forest.Child n m) : m ∈ s.held := by
  induction h with
  | refl => exact hn
  | tail _ hchild ih => exact hs.held_of_child _ ih _ hchild

/-- A node has one owner. -/
theorem Sound.owner_unique (hs : s.Sound) {q : NodeId} (hp : p ∈ s.held) (hq : q ∈ s.held)
    (hpc : s.forest.Child p c) (hqc : s.forest.Child q c) : p = q :=
  Option.some.inj
    ((hs.parent_of_child p hp c hpc).symm.trans (hs.parent_of_child q hq c hqc))

/-- Of two nodes with a common descendant one is a descendant of the other. -/
theorem Sound.comparable (hs : s.Sound) (hc : c ∈ s.held) (hc' : c' ∈ s.held)
    (h : ReflTransGen s.forest.Child c m) (h' : ReflTransGen s.forest.Child c' m) :
    ReflTransGen s.forest.Child c c' ∨ ReflTransGen s.forest.Child c' c := by
  induction h with
  | refl => exact .inr h'
  | @tail b m hcb hchild ih =>
    rcases h'.cases_tail with rfl | ⟨b', hcb', hchild'⟩
    · exact .inl (hcb.tail hchild)
    · have heq : b' = b := hs.owner_unique (hs.held_of_reflTransGen hc' hcb')
        (hs.held_of_reflTransGen hc hcb) hchild' hchild
      exact ih (heq ▸ hcb')

/-- A child that descends from another child of its owner makes a cycle. -/
theorem Sound.cycle_of_siblings (hs : s.Sound) (hn : n ∈ s.held) (hc : s.forest.Child n c)
    (hc' : s.forest.Child n c') (hne : c ≠ c') (h : ReflTransGen s.forest.Child c c') :
    s.forest.Reaches n n := by
  obtain heq | ⟨b, hcb, hchild⟩ := h.cases_tail
  · exact absurd heq.symm hne
  · have hheld := hs.held_of_reflTransGen (hs.held_of_child n hn c hc) hcb
    have heq : b = n := hs.owner_unique hheld hn hchild hc'
    exact TransGen.head' hc (heq ▸ hcb)

/-- **Siblings have no descendant in common.** -/
theorem Sound.siblings_disjoint (hs : s.Sound) (hn : n ∈ s.held) (hacyclic : ¬s.forest.Reaches n n)
    (hc : s.forest.Child n c) (hc' : s.forest.Child n c') (hne : c ≠ c')
    (h : ReflTransGen s.forest.Child c m) : ¬ReflTransGen s.forest.Child c' m := by
  intro h'
  have hheld := hs.held_of_child n hn
  rcases hs.comparable (hheld c hc) (hheld c' hc') h h' with hdown | hdown
  · exact hacyclic (hs.cycle_of_siblings hn hc hc' hne hdown)
  · exact hacyclic (hs.cycle_of_siblings hn hc' hc hne.symm hdown)

/-- **Sessions without tangles**: no list of children repeats, and no node is among its own
descendants. -/
def Untangled (s : Session) : Prop :=
  ∀ n ∈ s.held, (s.forest.children n).Nodup ∧ ¬s.forest.Reaches n n

/-- Going down ends, since there are finitely many nodes. -/
theorem Untangled.wellFounded (h : s.Untangled) :
    WellFounded fun c p : { n // n ∈ s.held } => s.forest.Reaches p c := by
  have : IsTrans { n // n ∈ s.held } fun c p => s.forest.Reaches p c :=
    ⟨fun _ _ _ hba hcb => TransGen.trans hcb hba⟩
  have : Std.Irrefl fun c p : { n // n ∈ s.held } => s.forest.Reaches p c :=
    ⟨fun n hcycle => (h n n.2).2 hcycle⟩
  exact Finite.wellFounded_of_trans_of_irrefl _

/-- **Walks end** where nothing is tangled, and repeat nothing. -/
theorem Sound.exists_visits (hs : s.Sound) (h : s.Untangled) (hn : n ∈ s.held) :
    ∃ out, s.forest.Visits [n] out ∧ out.Nodup := by
  induction hnode : (⟨n, hn⟩ : { n // n ∈ s.held })
    using h.wellFounded.induction generalizing n with
  | _ node ih =>
    subst hnode
    have hkids : ∀ c, ∃ out, c ∈ s.forest.children n → s.forest.Visits [c] out ∧ out.Nodup := by
      intro c
      by_cases hc : c ∈ s.forest.children n
      · obtain ⟨out, hout⟩ := ih ⟨c, hs.held_of_child n hn c hc⟩ (.single hc) _ rfl
        exact ⟨out, fun _ => hout⟩
      · exact ⟨[], fun hc' => absurd hc' hc⟩
    choose found hfound using hkids
    have hbelow : s.forest.Visits (s.forest.children n) ((s.forest.children n).flatMap found) :=
      .flatMap fun c hc => (hfound c hc).1
    have hmem : ∀ c ∈ s.forest.children n, ∀ m, m ∈ found c
        ↔ ReflTransGen s.forest.Child c m := by
      intro c hc m
      rw [(hfound c hc).1.mem_iff]
      simp only [List.mem_singleton, exists_eq_left]
    refine ⟨_, .visit n [] _ (by rwa [List.append_nil]), List.nodup_cons.mpr ⟨?_, ?_⟩⟩
    · intro hback
      obtain ⟨c, hc, hback⟩ := hbelow.mem_iff.mp hback
      exact (h n hn).2 (TransGen.head' hc hback)
    · refine List.nodup_flatMap.mpr ⟨fun c hc => (hfound c hc).2, ?_⟩
      refine (h n hn).1.pairwise_of_forall_ne fun c hc c' hc' hne m hm hm' => ?_
      exact hs.siblings_disjoint hn (h n hn).2 hc hc' hne ((hmem c hc m).mp hm)
        ((hmem c' hc' m).mp hm')

/-- **Untangled sessions hold trees.** -/
theorem Sound.untangled_iff (hs : s.Sound) :
    s.Untangled ↔ ∀ n ∈ s.held, s.forest.IsTree n := by
  refine ⟨fun h n hn => ⟨(h n hn).2, ?_⟩,
    fun h n hn => ⟨(h n hn).nodup_children, (h n hn).not_reaches⟩⟩
  obtain ⟨out, hvisits, hnodup⟩ := hs.exists_visits h hn
  have hin : ∀ m ∈ out, m < s.forest.cells.size := fun m hm => by
    obtain ⟨k, hk, hkm⟩ := hvisits.mem_iff.mp hm
    rw [List.mem_singleton.mp hk] at hkm
    exact hs.held_lt m (hs.held_of_reflTransGen hn hkm)
  have hsub : out.Subperm (List.range s.forest.cells.size) :=
    hnodup.subperm fun m hm => List.mem_range.mpr (hin m hm)
  have hlength : out.length ≤ s.forest.cells.size + 1 :=
    hsub.length_le.trans (by simp)
  obtain ⟨trees, htrees, hshows⟩ := hvisits.readTree hin hlength
  cases mapM_eq_some_iff.mp htrees with
  | @cons _ t _ _ htree hrest =>
    cases hrest
    rw [← Tree.walkFrom_eq] at hshows
    exact ⟨out, t, hvisits, hnodup, fun m => hvisits.mem_iff_reaches, htree, hshows⟩

end Session

end SyntaxForest.Forest
