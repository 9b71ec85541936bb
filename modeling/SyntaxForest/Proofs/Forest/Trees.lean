import SyntaxForest.Proofs.Forest.Walk

/-!
# When nodes form trees

Ownership is all that is asked before a node gets a child, and it does not suffice for trees. A
child that the node owns already is taken again, at a further place, and a node that nobody owns
is taken even by one of its own descendants, or by itself. After the first a walk visits the
child twice; after the second no walk from the two nodes ends.

These are the only ways to spoil a tree: nodes carry trees all through a run if and only if each
child that was not refused was a new one for its owner, and no ancestor of it.
-/

namespace SyntaxForest.Forest

open Relation

/-- Paths in a graph with one edge more: they do without the edge, or lead to its start, and from
its end. -/
theorem transGen_or_edge {α : Type} {r : α → α → Prop} {a b x y : α}
    (h : TransGen (fun p c => r p c ∨ p = a ∧ c = b) x y) :
    TransGen r x y ∨ ReflTransGen r x a ∧ ReflTransGen r b y := by
  induction h with
  | single hedge =>
    rcases hedge with hold | ⟨rfl, rfl⟩
    · exact .inl (.single hold)
    · exact .inr ⟨.refl, .refl⟩
  | tail _ hedge ih =>
    rcases ih with hpath | ⟨hto, hfrom⟩ <;> rcases hedge with hold | ⟨rfl, rfl⟩
    · exact .inl (hpath.tail hold)
    · exact .inr ⟨hpath.to_reflTransGen, .refl⟩
    · exact .inr ⟨hto, hfrom.tail hold⟩
    · exact .inr ⟨hto, .refl⟩

namespace Session

variable {s : Session} {op : Op} {after : Session × Answer} {n m : NodeId}

/-- **Tangling**: a child is given twice, or is the owner itself or one of its ancestors. -/
def Tangles (s : Session) : Op → Prop
  | .create _ _ children => ¬children.Nodup
  | .add owner child | .insert owner _ child =>
    child ∈ s.forest.children owner ∨ child = owner ∨ s.forest.Reaches child owner
  | .detach _ | .set .. => False

theorem tangles_iff {owner child : NodeId} (h : op.takes? = some (owner, child)) :
    s.Tangles op ↔ child ∈ s.forest.children owner ∨ ReflTransGen s.forest.Child child owner := by
  have hown : child = owner ∨ s.forest.Reaches child owner
      ↔ ReflTransGen s.forest.Child child owner := by
    rw [reflTransGen_iff_eq_or_transGen, @eq_comm _ owner]
    rfl
  cases op with
  | add owner' child' | insert owner' _ child' =>
    cases h
    exact or_congr_right hown
  | _ => cases h

theorem reaches_congr {f g : Forest} (h : g.children = f.children) : g.Reaches = f.Reaches := by
  unfold Reaches Child
  rw [h]

/-- A node that was held before reaches the same nodes when a new one gets children. -/
theorem Sound.reaches_of_new (hs : s.Sound) {g : Forest} {kids : List NodeId}
    (h : g.children = Function.update s.forest.children s.forest.cells.size kids)
    (hn : n ∈ s.held) (hreach : g.Reaches n m) : s.forest.Reaches n m ∧ m ∈ s.held := by
  have hchild : ∀ p ∈ s.held, ∀ c, g.Child p c → s.forest.Child p c := fun p hp c hc => by
    rwa [Child, h, hs.children_of_new hp] at hc
  induction hreach with
  | single hc => exact ⟨.single (hchild n hn _ hc), hs.held_of_child n hn _ (hchild n hn _ hc)⟩
  | tail _ hc ih =>
    obtain ⟨hreach, hheld⟩ := ih
    exact ⟨hreach.tail (hchild _ hheld _ hc), hs.held_of_child _ hheld _ (hchild _ hheld _ hc)⟩

/-- A new node tangles nothing that was there before. -/
theorem Sound.untangled_of_new (hs : s.Sound) (ht : s.Untangled) {g : Forest} {kids : List NodeId}
    (h : g.children = Function.update s.forest.children s.forest.cells.size kids) :
    Untangled ⟨g, s.held⟩ := by
  intro n hn
  dsimp only at hn ⊢
  rw [h, hs.children_of_new hn]
  exact ⟨(ht n hn).1, fun hcycle => (ht n hn).2 (hs.reaches_of_new h hn hcycle).1⟩

/-- **Making a node** tangles nothing just if each of its children is given once. -/
theorem Sound.untangled_made_iff (hs : s.Sound) (ht : s.Untangled) {g : Forest}
    {kids : List NodeId} (held : ∀ c ∈ kids, c ∈ s.held)
    (h : g.children = Function.update s.forest.children s.forest.cells.size kids) :
    Untangled ⟨g, s.forest.cells.size :: s.held⟩ ↔ kids.Nodup := by
  have hnew : s.forest.cells.size ∉ s.held := fun h => (hs.held_lt _ h).false
  -- What is below the new node was held before, and the new node was not.
  have hacyclic : ¬g.Reaches s.forest.cells.size s.forest.cells.size := by
    intro hcycle
    obtain ⟨c, hc, hback⟩ := TransGen.head'_iff.mp hcycle
    rw [Child, h, Function.update_self] at hc
    rcases reflTransGen_iff_eq_or_transGen.mp hback with heq | hback
    · exact hnew (heq ▸ held c hc)
    · exact hnew (hs.reaches_of_new h (held c hc) hback).2
  have hkids : g.children s.forest.cells.size = kids := by rw [h, Function.update_self]
  refine ⟨fun hafter => ?_, fun hnodup => List.forall_mem_cons.mpr ⟨⟨?_, hacyclic⟩, ?_⟩⟩
  · exact hkids ▸ (hafter _ (List.mem_cons_self ..)).1
  · exact hkids.symm ▸ hnodup
  · exact hs.untangled_of_new ht h

/-- **Putting a child** tangles nothing just if the owner has it not, and is not below it. -/
theorem Untangled.put_iff (ht : s.Untangled) {g : Forest} {owner child : NodeId}
    {kids : List NodeId} (owner_held : owner ∈ s.held)
    (perm : kids.Perm (child :: s.forest.children owner))
    (h : g.children = Function.update s.forest.children owner kids) :
    Untangled ⟨g, s.held⟩ ↔ ¬(child ∈ s.forest.children owner
      ∨ ReflTransGen s.forest.Child child owner) := by
  have hedge : g.Child = fun p c => s.forest.Child p c ∨ p = owner ∧ c = child := by
    funext p c
    by_cases hp : p = owner
    · subst hp
      simp [Child, h, perm.mem_iff, or_comm]
    · simp [Child, h, hp]
  have hkids : (g.children owner).Nodup
      ↔ child ∉ s.forest.children owner ∧ (s.forest.children owner).Nodup := by
    rw [h, Function.update_self, perm.nodup_iff, List.nodup_cons]
  refine ⟨fun hafter => ?_, fun hfree n hn => ⟨?_, fun hcycle => ?_⟩⟩
  · obtain ⟨hnodup, hacyclic⟩ := hafter owner owner_held
    rintro (hagain | hup)
    · exact (hkids.mp hnodup).1 hagain
    · have hdown : g.Child owner child := by simp [hedge]
      have hmore : s.forest.Child ≤ g.Child := fun p c hpc => by simp [hedge, hpc]
      exact hacyclic (TransGen.head' hdown (ReflTransGen.mono hmore _ _ hup))
  · by_cases heq : n = owner
    · subst heq
      exact hkids.mpr ⟨fun hagain => hfree (.inl hagain), (ht n hn).1⟩
    · dsimp only
      rw [h, Function.update_of_ne heq]
      exact (ht n hn).1
  · rw [Reaches, hedge] at hcycle
    rcases transGen_or_edge hcycle with hold | ⟨hto, hfrom⟩
    · exact (ht n hn).2 hold
    · exact hfree (.inr (hfrom.trans hto))

/-- **Letting children go** tangles nothing. -/
theorem Untangled.released (ht : s.Untangled) {g : Forest} {owner : NodeId}
    (h : g.children = Function.update s.forest.children owner []) : Untangled ⟨g, s.held⟩ := by
  have hfewer : g.Child ≤ s.forest.Child := fun p c hc => by
    rw [Child, h, Function.update_apply] at hc
    split at hc
    · cases hc
    · exact hc
  refine fun n hn => ⟨?_, fun hcycle => (ht n hn).2 (TransGen.mono hfewer _ _ hcycle)⟩
  dsimp only
  rw [h, Function.update_apply]
  split
  · exact List.nodup_nil
  · exact (ht n hn).1

theorem Effect.untangled_iff (h : Effect s op after) (hs : s.Sound) (ht : s.Untangled) :
    after.1.Untangled ↔ ¬(after.2 = .done ∧ s.Tangles op) := by
  cases h with
  | unknown op names => exact iff_of_true ht fun h => by cases h.1
  | refused op reason owned => exact iff_of_true ht fun h => by cases h.1
  | properties node key value g size children parent =>
    refine iff_of_true (fun n hn => ?_) fun h => h.2
    simpa only [children, reaches_congr children] using ht n hn
  | made kind properties kids g held unowned size children parent =>
    rw [hs.untangled_made_iff ht held children]
    simp [Tangles]
  | unmade kind properties kids reason g size children parent =>
    exact iff_of_true (hs.untangled_of_new ht children) fun h => by cases h.1
  | put op owner child takes place g kids perm owner_held child_held may size children parent =>
    rw [ht.put_iff owner_held perm children, tangles_iff takes]
    simp
  | stranded owner i child g index owner_held child_held may size children parent =>
    refine iff_of_true (fun n hn => ?_) fun h => by cases h.1
    simpa only [children, reaches_congr children] using ht n hn
  | released owner g owner_held size children parent =>
    exact iff_of_true (ht.released children) fun h => h.2

/-- **Trees.** All nodes that are held carry trees all through a run if and only if no operation
of it that was not refused gave a node a child that it had, or that was the node itself or one
of its ancestors, or made a node of children one of which was given twice. -/
theorem run_trees (ops : List Op) :
    Throughout (fun s => ∀ n ∈ s.held, s.forest.IsTree n) ops
      ↔ NeverDoes (fun s op => (s.perform op).2 = .done ∧ s.Tangles op) ops := by
  refine throughout_iff (fun n hn => by cases hn) (fun s op hs ht => ?_) ops
  have heffect := perform_effect hs op
  rw [← (heffect.sound hs).untangled_iff]
  exact heffect.untangled_iff hs (hs.untangled_iff.mpr ht)

/-- **Tangled nodes**: a child that is appended twice is walked through twice, and a node that is
appended to its own child reaches itself, so that no walk from it ends. -/
theorem run_trees_tangled :
    let twice := (run [.create "A" [] [], .create "B" [] [], .add 0 1, .add 0 1]).forest
    let cycle := (run [.create "A" [] [], .create "B" [] [], .add 0 1, .add 1 0]).forest
    (twice.Visits [0] [0, 1, 1] ∧ ¬twice.IsTree 0)
      ∧ cycle.Reaches 0 0 ∧ (∀ out, ¬cycle.Visits [0] out) ∧ ¬cycle.IsTree 0 := by
  intro twice cycle
  have hvisits : twice.Visits [0] [0, 1, 1] :=
    .visit 0 [] _ (.visit 1 [1] _ (.visit 1 [] _ .done))
  have hcycle : cycle.Reaches 0 0 :=
    .tail (.single (show 1 ∈ cycle.children 0 by decide)) (show 0 ∈ cycle.children 1 by decide)
  exact ⟨⟨hvisits, fun h => absurd h.nodup_children (by decide)⟩, hcycle,
    fun out h => h.not_reaches 0 (by simp) hcycle, fun h => h.not_reaches hcycle⟩

end Session

end SyntaxForest.Forest
