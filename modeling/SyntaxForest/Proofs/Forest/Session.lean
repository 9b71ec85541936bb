import Mathlib.Data.List.Infix
import SyntaxForest.Proofs.Forest.Links

/-!
# Sessions with a forest

Whoever builds trees works with nodes that were handed out: a node is made, gets children, lets
them go, and is handed out only if making it was not refused. A *session* is a forest with the
nodes that were handed out, and a run is a list of operations on them.

What one operation can do is listed once (`perform_effect`), with its conditions. A property of
sessions that holds in the beginning then holds all through a run if and only if the run never
does what breaks it (`throughout_iff`).
-/

namespace SyntaxForest.Forest

/-- **A session**: a forest and the nodes of it that were handed out. -/
structure Session where
  forest : Forest
  held : List NodeId

/-- **What can be asked of a forest.** -/
inductive Op
  | create (kind : String) (properties : List (Value × Value)) (children : List NodeId)
  | add (owner child : NodeId)
  | insert (owner : NodeId) (index : Int) (child : NodeId)
  | detach (owner : NodeId)
  | set (node : NodeId) (key : String) (value : Value)

/-- The nodes that an operation names. -/
def Op.nodes : Op → List NodeId
  | .create _ _ children => children
  | .add owner child | .insert owner _ child => [owner, child]
  | .detach node | .set node _ _ => [node]

/-- The owner and the child of an operation that takes a child for an owner that exists. -/
def Op.takes? : Op → Option (NodeId × NodeId)
  | .add owner child | .insert owner _ child => some (owner, child)
  | _ => none

/-- An operation that gives no place that no list can count by. -/
def Op.HasPlace : Op → Prop
  | .insert _ index _ => isIndex index = true
  | _ => True

/-- **What comes of an operation.** One that names a node nobody holds comes to nothing. -/
inductive Answer
  | done
  | refused (reason : Refusal)
  | unknown

namespace Session

/-- A session in which nothing has been made. -/
def start : Session := ⟨.empty, []⟩

/-- The session after an operation that changes nothing if it is refused. -/
def settle (s : Session) : Except Refusal Forest → Session × Answer
  | .ok f => (⟨f, s.held⟩, .done)
  | .error reason => (s, .refused reason)

/-- An operation on nodes that are held. -/
def carryOut (s : Session) : Op → Session × Answer
  | .create kind properties children =>
    match s.forest.create kind properties children with
    | (f, .ok id) => (⟨f, id :: s.held⟩, .done)
    | (f, .error reason) => (⟨f, s.held⟩, .refused reason)
  | .add owner child => s.settle (s.forest.add owner child)
  | .insert owner index child =>
    match s.forest.insert owner index child with
    | (f, none) => (⟨f, s.held⟩, .done)
    | (f, some reason) => (⟨f, s.held⟩, .refused reason)
  | .detach owner => (⟨(s.forest.detach owner).1, s.held⟩, .done)
  | .set node key value => s.settle (s.forest.set node key value)

/-- **One operation of a session.** -/
def perform (s : Session) (op : Op) : Session × Answer :=
  if ∀ n ∈ op.nodes, n ∈ s.held then s.carryOut op else (s, .unknown)

/-- **A run**: operations one after another, whatever comes of each. -/
def run (ops : List Op) : Session := ops.foldl (fun s op => (s.perform op).1) start

variable {s : Session} {op : Op} {ops : List Op}

@[simp] theorem run_nil : run [] = start := rfl

@[simp] theorem run_concat : run (ops ++ [op]) = ((run ops).perform op).1 :=
  List.foldl_concat ..

/-! ## Sound sessions -/

/-- **Sound sessions**: the nodes that are held are there, as is every owner, and who holds a
node holds its children, which it owns. -/
structure Sound (s : Session) : Prop where
  held_lt : ∀ n ∈ s.held, n < s.forest.cells.size
  parent_lt : ∀ n p, s.forest.parent? n = some p → p < s.forest.cells.size
  held_of_child : ∀ p ∈ s.held, ∀ c ∈ s.forest.children p, c ∈ s.held
  parent_of_child : ∀ p ∈ s.held, ∀ c ∈ s.forest.children p, s.forest.parent? c = some p

theorem sound_start : start.Sound where
  held_lt _ h := by cases h
  parent_lt n p h := by simp [start, empty, parent?] at h
  held_of_child _ h := by cases h
  parent_of_child _ h := by cases h

/-- A node that was held before keeps its children when a new one gets some. -/
theorem Sound.children_of_new (hs : s.Sound) {p : NodeId} (hp : p ∈ s.held) (kids : List NodeId) :
    Function.update s.forest.children s.forest.cells.size kids p = s.forest.children p :=
  Function.update_of_ne (hs.held_lt p hp).ne ..

/-- Taking a node takes it from nobody. -/
theorem Sound.parent_of_taken (hs : s.Sound) {owner child p c : NodeId}
    (may : s.forest.MayTake owner child) (hp : p ∈ s.held) (hc : c ∈ s.forest.children p) :
    Function.update s.forest.parent? child (some owner) c = some p := by
  have hparent := hs.parent_of_child p hp c hc
  by_cases heq : c = child
  · subst heq
    rw [Function.update_self, ← hparent]
    exact (may.resolve_left (by simp [hparent])).symm
  · rw [Function.update_of_ne heq, hparent]

/-- Whoever takes a node is there. -/
theorem Sound.parent_lt_of_taken (hs : s.Sound) {owner child n p : NodeId}
    (howner : owner ∈ s.held)
    (h : Function.update s.forest.parent? child (some owner) n = some p) :
    p < s.forest.cells.size := by
  rw [Function.update_apply] at h
  split at h
  · cases h
    exact hs.held_lt owner howner
  · exact hs.parent_lt n p h

/-! ## Effects -/

/-- **What an operation can do to a session**, and what comes of it. -/
inductive Effect (s : Session) : Op → Session × Answer → Prop
  /-- Nothing, since a node is unknown. -/
  | unknown (op : Op) (names : ∃ n ∈ op.nodes, n ∉ s.held) : Effect s op (s, .unknown)
  /-- Nothing, since a value is no property or a child belongs to another node. -/
  | refused (op : Op) (reason : Refusal)
      (owned : ∀ owner child, op.takes? = some (owner, child) → ¬s.forest.MayTake owner child) :
      Effect s op (s, .refused reason)
  /-- Properties change. -/
  | properties (node key value) (g : Forest)
      (size : g.cells.size = s.forest.cells.size)
      (children : g.children = s.forest.children)
      (parent : g.parent? = s.forest.parent?) :
      Effect s (.set node key value) (⟨g, s.held⟩, .done)
  /-- A node is made and handed out. -/
  | made (kind properties kids) (g : Forest)
      (held : ∀ c ∈ kids, c ∈ s.held)
      (unowned : ∀ c ∈ kids, s.forest.parent? c = none)
      (size : g.cells.size = s.forest.cells.size + 1)
      (children : g.children = Function.update s.forest.children s.forest.cells.size kids)
      (parent : ∀ n, g.parent? n
        = if n ∈ kids then some s.forest.cells.size else s.forest.parent? n) :
      Effect s (.create kind properties kids) (⟨g, s.forest.cells.size :: s.held⟩, .done)
  /-- A node is made, takes some of its children, and is not handed out. -/
  | unmade (kind properties kids reason) (g : Forest)
      (size : g.cells.size = s.forest.cells.size + 1)
      (children : g.children = Function.update s.forest.children s.forest.cells.size kids)
      (parent : ∀ n, g.parent? n = s.forest.parent? n
        ∨ s.forest.parent? n = none ∧ g.parent? n = some s.forest.cells.size) :
      Effect s (.create kind properties kids) (⟨g, s.held⟩, .refused reason)
  /-- A child is taken and put among the children. -/
  | put (op : Op) (owner child : NodeId)
      (takes : op.takes? = some (owner, child))
      (place : op.HasPlace)
      (g : Forest) (kids : List NodeId) (perm : kids.Perm (child :: s.forest.children owner))
      (owner_held : owner ∈ s.held) (child_held : child ∈ s.held)
      (may : s.forest.MayTake owner child)
      (size : g.cells.size = s.forest.cells.size)
      (children : g.children = Function.update s.forest.children owner kids)
      (parent : g.parent? = Function.update s.forest.parent? child (some owner)) :
      Effect s op (⟨g, s.held⟩, .done)
  /-- A child is taken and put nowhere. -/
  | stranded (owner i child) (g : Forest) (index : isIndex i = false)
      (owner_held : owner ∈ s.held) (child_held : child ∈ s.held)
      (may : s.forest.MayTake owner child)
      (size : g.cells.size = s.forest.cells.size)
      (children : g.children = s.forest.children)
      (parent : g.parent? = Function.update s.forest.parent? child (some owner)) :
      Effect s (.insert owner i child) (⟨g, s.held⟩, .refused (.index i))
  /-- All children of a node are let go. -/
  | released (owner) (g : Forest) (owner_held : owner ∈ s.held)
      (size : g.cells.size = s.forest.cells.size)
      (children : g.children = Function.update s.forest.children owner [])
      (parent : ∀ n, g.parent? n
        = if n ∈ s.forest.children owner then none else s.forest.parent? n) :
      Effect s (.detach owner) (⟨g, s.held⟩, .done)

theorem add_effect {owner child : NodeId} (hs : s.Sound) (howner : owner ∈ s.held)
    (hchild : child ∈ s.held) : Effect s (.add owner child) (s.carryOut (.add owner child)) := by
  rw [carryOut]
  cases hadd : s.forest.add owner child with
  | error reason =>
    refine .refused _ _ fun owner' child' htakes => ?_
    cases htakes
    exact not_mayTake_of_add hadd
  | ok g =>
    obtain ⟨hmay, hsize, hchildren, hparent⟩ :=
      add_ok (hs.held_lt owner howner) (hs.held_lt child hchild) hadd
    exact .put (.add owner child) owner child rfl trivial g _ (List.perm_append_singleton ..)
      howner hchild hmay hsize hchildren hparent

theorem insert_effect {owner child : NodeId} {i : Int} (hs : s.Sound) (howner : owner ∈ s.held)
    (hchild : child ∈ s.held) :
    Effect s (.insert owner i child) (s.carryOut (.insert owner i child)) := by
  rw [carryOut]
  cases hadopt : s.forest.adopt owner child with
  | error reason =>
    rw [insert, hadopt]
    refine .refused _ _ fun owner' child' htakes => ?_
    cases htakes
    exact not_mayTake hadopt
  | ok taken =>
    obtain ⟨hmay, -, hsame, -⟩ := adopt_ok (hs.held_lt child hchild) hadopt
    obtain ⟨hsize, hparent, hplaced, hstranded⟩ :=
      insert_ok i (hs.held_lt child hchild) hadopt (hs.held_lt owner howner)
    generalize s.forest.insert owner i child = result at *
    obtain ⟨g, refused⟩ := result
    cases hindex : isIndex i with
    | true =>
      obtain ⟨rfl, hchildren⟩ := hplaced hindex
      exact .put (.insert owner i child) owner child rfl hindex g _
        (List.perm_insertIdx _ _ (placeOf_le ..)) howner hchild hmay hsize hchildren hparent
    | false =>
      obtain ⟨rfl, rfl⟩ := hstranded hindex
      exact .stranded owner i child _ hindex howner hchild hmay hsize hsame hparent

theorem create_effect {kind : String} {properties : List (Value × Value)} {kids : List NodeId}
    (hs : s.Sound) (hkids : ∀ c ∈ kids, c ∈ s.held) :
    Effect s (.create kind properties kids) (s.carryOut (.create kind properties kids)) := by
  have hmade : Made s.forest kids (s.forest.create kind properties kids) :=
    create_made kind properties (fun c hc => hs.held_lt c (hkids c hc))
      fun c _ hparent => (hs.parent_lt c _ hparent).false
  rw [carryOut]
  generalize s.forest.create kind properties kids = result at *
  cases hmade with
  | fault reason => exact .refused _ _ fun _ _ h => by cases h
  | refused g reason hsize hchildren hparent =>
    exact .unmade kind properties kids reason g hsize hchildren hparent
  | made g hunowned hsize hchildren hparent =>
    exact .made kind properties kids g hkids hunowned hsize hchildren hparent

/-- **The effect of an operation** is one of those listed. -/
theorem perform_effect (hs : s.Sound) (op : Op) : Effect s op (s.perform op) := by
  unfold perform
  split
  · next hheld =>
    cases op with
    | create kind properties kids => exact create_effect hs hheld
    | add owner child =>
      exact add_effect hs (hheld owner (by simp [Op.nodes])) (hheld child (by simp [Op.nodes]))
    | insert owner i child =>
      exact insert_effect hs (hheld owner (by simp [Op.nodes])) (hheld child (by simp [Op.nodes]))
    | detach owner =>
      have howner := hheld owner (by simp [Op.nodes])
      obtain ⟨hsize, hchildren, hparent⟩ := detach_links (hs.held_lt owner howner)
        fun c hc => hs.held_lt c (hs.held_of_child owner howner c hc)
      exact .released owner _ howner hsize hchildren hparent
    | set node key value =>
      rw [carryOut]
      cases hset : s.forest.set node key value with
      | error reason => exact .refused _ _ fun _ _ h => by cases h
      | ok g =>
        obtain ⟨hsize, hchildren, hparent⟩ := set_links hset
        exact .properties node key value g hsize hchildren hparent
  · next hheld => exact .unknown _ (by simpa using hheld)

/-- **Soundness lasts.** -/
theorem Effect.sound {after : Session × Answer} (h : Effect s op after) (hs : s.Sound) :
    after.1.Sound := by
  cases h with
  | unknown | refused => exact hs
  | properties node key value g size children parent =>
    constructor <;> simp only [size, children, parent]
    exacts [hs.held_lt, hs.parent_lt, hs.held_of_child, hs.parent_of_child]
  | made kind properties kids g held unowned size children parent =>
    constructor <;> simp only [size, children, parent, List.forall_mem_cons]
    · exact ⟨Nat.lt_succ_self _, fun n h => (hs.held_lt n h).trans (Nat.lt_succ_self _)⟩
    · intro n p h
      split at h
      · cases h
        exact Nat.lt_succ_self _
      · exact (hs.parent_lt n p h).trans (Nat.lt_succ_self _)
    · refine ⟨fun c hc => ?_, fun p hp c hc => ?_⟩
      · rw [Function.update_self] at hc
        exact List.mem_cons_of_mem _ (held c hc)
      · rw [hs.children_of_new hp] at hc
        exact List.mem_cons_of_mem _ (hs.held_of_child p hp c hc)
    · refine ⟨fun c hc => ?_, fun p hp c hc => ?_⟩
      · rw [Function.update_self] at hc
        exact if_pos hc
      · rw [hs.children_of_new hp] at hc
        have hparent := hs.parent_of_child p hp c hc
        rw [if_neg (fun hkid => by simp [unowned c hkid] at hparent), hparent]
  | unmade kind properties kids reason g size children parent =>
    constructor <;> simp only [size, children]
    · exact fun n h => (hs.held_lt n h).trans (Nat.lt_succ_self _)
    · intro n p h
      rcases parent n with heq | ⟨-, heq⟩
      · exact (hs.parent_lt n p (heq.symm.trans h)).trans (Nat.lt_succ_self _)
      · cases heq.symm.trans h
        exact Nat.lt_succ_self _
    · intro p hp c hc
      rw [hs.children_of_new hp] at hc
      exact hs.held_of_child p hp c hc
    · intro p hp c hc
      rw [hs.children_of_new hp] at hc
      have hparent := hs.parent_of_child p hp c hc
      rcases parent c with heq | ⟨hnone, -⟩
      · exact heq.trans hparent
      · simp [hnone] at hparent
  | put op owner child takes place g kids perm owner_held child_held may size children parent =>
    constructor <;> simp only [size, children, parent]
    · exact hs.held_lt
    · exact fun n p h => hs.parent_lt_of_taken owner_held h
    · intro p hp c hc
      rw [Function.update_apply] at hc
      split at hc
      · rcases List.mem_cons.mp (perm.mem_iff.mp hc) with rfl | hc
        · exact child_held
        · exact hs.held_of_child owner owner_held c hc
      · exact hs.held_of_child p hp c hc
    · intro p hp c hc
      rw [Function.update_apply] at hc
      split at hc
      · next heq =>
        subst heq
        rcases List.mem_cons.mp (perm.mem_iff.mp hc) with rfl | hc
        · exact Function.update_self ..
        · exact hs.parent_of_taken may hp hc
      · exact hs.parent_of_taken may hp hc
  | stranded owner i child g index owner_held child_held may size children parent =>
    constructor <;> simp only [size, children, parent]
    · exact hs.held_lt
    · exact fun n p h => hs.parent_lt_of_taken owner_held h
    · exact hs.held_of_child
    · exact fun p hp c hc => hs.parent_of_taken may hp hc
  | released owner g owner_held size children parent =>
    constructor <;> simp only [size, children, parent, Function.update_apply]
    · exact hs.held_lt
    · intro n p h
      split at h
      · cases h
      · exact hs.parent_lt n p h
    · intro p hp c hc
      split at hc
      · cases hc
      · exact hs.held_of_child p hp c hc
    · intro p hp c hc
      split at hc
      · cases hc
      · next hne =>
        have hparent := hs.parent_of_child p hp c hc
        rw [if_neg, hparent]
        intro hgone
        have hother := hs.parent_of_child owner owner_held c hgone
        exact hne (Option.some.inj (hparent.symm.trans hother))

theorem sound_run (ops : List Op) : (run ops).Sound := by
  induction ops using List.reverseRecOn with
  | nil => exact sound_start
  | append_singleton ops op ih =>
    rw [run_concat]
    exact (perform_effect ih op).sound ih

/-! ## All through a run -/

/-- **All through a run**: after each of its operations, and before the first. -/
def Throughout (P : Session → Prop) (ops : List Op) : Prop :=
  ∀ before, before <+: ops → P (run before)

/-- **A run in which nothing breaks**: no operation does, in the session in which it is
performed, what is told. -/
def NeverDoes (Breaks : Session → Op → Prop) (ops : List Op) : Prop :=
  ∀ before op, before ++ [op] <+: ops → ¬Breaks (run before) op

/-- **What holds all through a run.** If a property holds in the beginning, and an operation
leaves it exactly if the operation is not one that breaks it, then it holds all through the runs
in which nothing breaks it, and through no other. -/
theorem throughout_iff {P : Session → Prop} {Breaks : Session → Op → Prop} (hstart : P start)
    (hstep : ∀ s op, s.Sound → P s → (P (s.perform op).1 ↔ ¬Breaks s op)) (ops : List Op) :
    Throughout P ops ↔ NeverDoes Breaks ops := by
  induction ops using List.reverseRecOn with
  | nil =>
    refine ⟨fun _ before op h => ?_, fun _ before h => ?_⟩
    · simp at h
    · rw [List.prefix_nil.mp h]
      exact hstart
  | append_singleton ops op ih =>
    have hlast := hstep (run ops) op (sound_run ops)
    constructor
    · intro h before op' hpre
      have hbefore := ih.mp fun before hb => h before (hb.trans (List.prefix_append ..))
      rcases List.prefix_concat_iff.mp hpre with heq | hpre
      · obtain ⟨rfl, rfl⟩ := List.append_singleton_inj.mp heq
        refine (hlast (h before (List.prefix_append ..))).mp ?_
        rw [← run_concat]
        exact h _ List.prefix_rfl
      · exact hbefore before op' hpre
    · intro h before hpre
      have hbefore := ih.mpr fun before op' hb => h before op' (hb.trans (List.prefix_append ..))
      rcases List.prefix_concat_iff.mp hpre with rfl | hpre
      · rw [run_concat]
        exact (hlast (hbefore ops List.prefix_rfl)).mpr (h ops op List.prefix_rfl)
      · exact hbefore before hpre

end Session

end SyntaxForest.Forest
