import SyntaxForest.Proofs.Forest.Session

/-!
# Who owns a node

A forest says twice who belongs to whom: in the children of a node, and in the owner of a child.
Whatever is done with a forest, what the lists say the links say as well, and no node is in the
lists of two others.

The links may say more. A node that nobody owns is *stranded* if it is to be put at a place that
no list can count by: it is taken before the place is looked at, is then in no list, and will be
refused to everybody but an owner that does not have it. This is the only way in which the two
come apart for nodes that are held, and the only one in which a child that is refused is not
left as it was. A node that is refused while it is made keeps the children it took before, but
nobody holds that node.
-/

namespace SyntaxForest.Forest.Session

variable {s : Session} {op : Op} {after : Session × Answer}

/-- **Exclusive ownership**: among the nodes that are held, the children of a node are those
that it owns. -/
def Exclusive (s : Session) : Prop :=
  ∀ p ∈ s.held, ∀ c ∈ s.held, c ∈ s.forest.children p ↔ s.forest.parent? c = some p

/-- **Stranding**: a node that nobody owns is to be put at a place that no list can count by. -/
def Strands (s : Session) : Op → Prop
  | .insert owner index child => owner ∈ s.held ∧ child ∈ s.held
      ∧ s.forest.parent? child = none ∧ isIndex index = false
  | _ => False

/-- Two sessions in which the same nodes are linked in the same way. -/
def SameLinks (s t : Session) : Prop :=
  t.forest.children = s.forest.children ∧ t.forest.parent? = s.forest.parent?

/-- A taken child is in nobody else's list, whether or not it is put into one. -/
theorem Exclusive.mem_children_iff_of_taken (hx : s.Exclusive) {owner child p c : NodeId}
    (may : s.forest.MayTake owner child) (hp : p ∈ s.held) (hc : c ∈ s.held)
    (hne : p ≠ owner) :
    c ∈ s.forest.children p
      ↔ Function.update s.forest.parent? child (some owner) c = some p := by
  rw [hx p hp c hc, Function.update_apply]
  split
  · next heq =>
    subst heq
    have hother : s.forest.parent? c ≠ some p := by
      rcases may with hnone | hown
      · simp [hnone]
      · simpa [hown] using Ne.symm hne
    exact iff_of_false hother fun h => hne (Option.some.inj h).symm
  · rfl

/-- **What stranding does**: the child is taken, and is in no list that it was not in. -/
theorem Effect.of_strands (h : Effect s op after) (hstrands : s.Strands op) :
    ∃ owner ∈ s.held, ∃ child ∈ s.held, s.forest.parent? child = none
      ∧ after.1.forest.children = s.forest.children
      ∧ after.1.forest.parent? = Function.update s.forest.parent? child (some owner)
      ∧ after.1.held = s.held := by
  cases op with
  | insert owner index child =>
    obtain ⟨howner, hchild, hnone, hindex⟩ := hstrands
    cases h with
    | unknown _ names =>
      obtain ⟨n, hn, hout⟩ := names
      simp only [Op.nodes, List.mem_cons, List.not_mem_nil, or_false] at hn
      rcases hn with rfl | rfl <;> contradiction
    | refused _ reason owned => exact absurd (.inl hnone) (owned owner child rfl)
    | put _ _ _ _ place => simp [Op.HasPlace, hindex] at place
    | stranded _ _ _ g _ _ _ _ size children parent =>
      exact ⟨owner, howner, child, hchild, hnone, children, parent, rfl⟩
  | _ => cases hstrands

/-- A node that its owner is to take again at an impossible place is left as it was. -/
theorem parent_of_not_strands {owner child : NodeId} {i : Int} (howner : owner ∈ s.held)
    (hchild : child ∈ s.held) (may : s.forest.MayTake owner child) (index : isIndex i = false)
    (h : ¬s.Strands (.insert owner i child)) :
    Function.update s.forest.parent? child (some owner) = s.forest.parent? := by
  have hown := may.resolve_left fun hnone => h ⟨howner, hchild, hnone, index⟩
  rw [← hown, Function.update_eq_self]

theorem not_exclusive_of_strands (h : Effect s op after) (hs : s.Sound)
    (hstrands : s.Strands op) : ¬after.1.Exclusive := by
  obtain ⟨owner, howner, child, hchild, hnone, children, parent, held⟩ := h.of_strands hstrands
  intro hafter
  have hlisted := hafter owner (held ▸ howner) child (held ▸ hchild)
  rw [children, parent, Function.update_self, iff_true_right rfl] at hlisted
  simp [hs.parent_of_child owner howner child hlisted] at hnone

/-- A new node owns its children, and the others own what they owned. -/
theorem Sound.exclusive_of_made (hs : s.Sound) (hx : s.Exclusive) {g : Forest}
    {kids : List NodeId} (unowned : ∀ c ∈ kids, s.forest.parent? c = none)
    (children : g.children = Function.update s.forest.children s.forest.cells.size kids)
    (parent : ∀ n, g.parent? n
      = if n ∈ kids then some s.forest.cells.size else s.forest.parent? n) :
    Exclusive ⟨g, s.forest.cells.size :: s.held⟩ := by
  have hother : ∀ c, s.forest.parent? c ≠ some s.forest.cells.size :=
    fun c h => (hs.parent_lt c _ h).false
  have hnew : ∀ c, c ∈ kids ↔ g.parent? c = some s.forest.cells.size := by
    intro c
    by_cases hc : c ∈ kids <;> simp [parent, hc, hother c]
  have hold : ∀ p ∈ s.held, ∀ c, (c ∈ s.forest.children p ↔ s.forest.parent? c = some p) →
      (c ∈ s.forest.children p ↔ g.parent? c = some p) := by
    intro p hp c hc
    rw [hc, parent]
    by_cases hkid : c ∈ kids
    · simp [hkid, unowned c hkid, (hs.held_lt p hp).ne']
    · simp [hkid]
  simp only [Exclusive, children, List.forall_mem_cons, Function.update_self]
  refine ⟨⟨hnew _, fun c _ => hnew c⟩, fun p hp => ?_⟩
  simp only [hs.children_of_new hp]
  refine ⟨hold p hp _ (iff_of_false (fun hc => ?_) (by simp [parent?_size])),
    fun c hc => hold p hp c (hx p hp c hc)⟩
  exact (hs.held_lt _ (hs.held_of_child p hp _ hc)).false

theorem exclusive_of_not_strands (h : Effect s op after) (hs : s.Sound) (hx : s.Exclusive)
    (hstrands : ¬s.Strands op) : after.1.Exclusive := by
  cases h with
  | unknown | refused => exact hx
  | properties node key value g size children parent =>
    intro p hp c hc
    simpa only [children, parent] using hx p hp c hc
  | made kind properties kids g held unowned size children parent =>
    exact hs.exclusive_of_made hx unowned children parent
  | unmade kind properties kids reason g size children parent =>
    intro p hp c hc
    simp only [children, hs.children_of_new hp, hx p hp c hc]
    rcases parent c with heq | ⟨hnone, htaken⟩
    · rw [heq]
    · simp [hnone, htaken, (hs.held_lt p hp).ne']
  | put op owner child takes place g kids perm owner_held child_held may size children parent =>
    intro p hp c hc
    simp only [children, parent]
    by_cases hne : p = owner
    · subst hne
      rw [Function.update_self, perm.mem_iff, List.mem_cons, Function.update_apply, hx p hp c hc]
      split <;> simp_all
    · rw [Function.update_of_ne hne]
      exact hx.mem_children_iff_of_taken may hp hc hne
  | stranded owner i child g index owner_held child_held may size children parent =>
    intro p hp c hc
    rw [children, parent, parent_of_not_strands owner_held child_held may index hstrands]
    exact hx p hp c hc
  | released owner g owner_held size children parent =>
    intro p hp c hc
    simp only [children, parent, Function.update_apply]
    have hmine := hx owner owner_held c hc
    by_cases hgone : c ∈ s.forest.children owner
    · by_cases heq : p = owner
      · simp [heq, hgone]
      · simp [heq, hgone, hx p hp c hc, hmine.mp hgone, Ne.symm heq]
    · by_cases heq : p = owner
      · simp [heq, hgone, ← hmine]
      · simp [heq, hgone, hx p hp c hc]

/-- **Refused without a trace**: only stranding changes links and is refused. -/
theorem sameLinks_iff {reason : Refusal} (h : Effect s op after) (htakes : op.takes?.isSome)
    (hrefused : after.2 = .refused reason) : s.SameLinks after.1 ↔ ¬s.Strands op := by
  by_cases hstrands : s.Strands op
  · obtain ⟨owner, -, child, -, hnone, -, parent, -⟩ := h.of_strands hstrands
    refine iff_of_false (fun hsame => ?_) (not_not_intro hstrands)
    have htaken : some owner = none := by
      rw [← hnone, ← hsame.2, parent, Function.update_self]
    cases htaken
  · refine iff_of_true ?_ hstrands
    cases h with
    | refused => exact ⟨rfl, rfl⟩
    | stranded owner i child g index owner_held child_held may size children parent =>
      refine ⟨children, parent.trans ?_⟩
      exact parent_of_not_strands owner_held child_held may index hstrands
    | unmade => cases htakes
    | _ => cases hrefused

/-- **Ownership.** Whoever holds a node holds its children and owns them, so that no node is in
two lists. Lists and links agree all through a run if and only if no node is stranded in it, and
a child that is refused leaves all links as they were if and only if it is not stranded. -/
theorem run_ownership (ops : List Op) :
    (∀ p ∈ (run ops).held, ∀ c ∈ (run ops).forest.children p,
      c ∈ (run ops).held ∧ (run ops).forest.parent? c = some p)
    ∧ (∀ p ∈ (run ops).held, ∀ q ∈ (run ops).held, ∀ c,
      c ∈ (run ops).forest.children p → c ∈ (run ops).forest.children q → p = q)
    ∧ (Throughout Exclusive ops ↔ NeverDoes Strands ops)
    ∧ ∀ op reason, op.takes?.isSome → ((run ops).perform op).2 = .refused reason →
      ((run ops).SameLinks ((run ops).perform op).1 ↔ ¬(run ops).Strands op) := by
  have hs := sound_run ops
  refine ⟨fun p hp c hc => ⟨hs.held_of_child p hp c hc, hs.parent_of_child p hp c hc⟩,
    fun p hp q hq c hpc hqc => ?_, throughout_iff ?_ ?_ ops, fun op reason htakes hrefused => ?_⟩
  · have hparent := hs.parent_of_child p hp c hpc
    exact Option.some.inj (hparent.symm.trans (hs.parent_of_child q hq c hqc))
  · exact fun p hp => by cases hp
  · intro s op hs hx
    have heffect := perform_effect hs op
    exact ⟨fun hafter hstrands => not_exclusive_of_strands heffect hs hstrands hafter,
      exclusive_of_not_strands heffect hs hx⟩
  · exact sameLinks_iff (perform_effect hs op) htakes hrefused

/-- **A stranded node**: put at a place beyond all numbers of 64 bits, the second node is refused
and belongs to the first, which does not have it. -/
theorem run_ownership_stranded :
    let before := run [.create "A" [] [], .create "B" [] []]
    let op := Op.insert 0 0x8000000000000000 1
    let after := before.perform op
    after.2 = .refused (.index 0x8000000000000000) ∧ ¬before.SameLinks after.1
      ∧ ¬after.1.Exclusive := by
  refine ⟨rfl, fun hsame => ?_, fun hexclusive => ?_⟩
  · exact absurd (congrFun hsame.2 1) (by decide)
  · exact absurd (hexclusive 0 (by decide) 1 (by decide)) (by decide)

end SyntaxForest.Forest.Session
