import Mathlib.Logic.Relation

/-!
# Traversals by a stack

A traversal keeps the nodes that wait on a stack, the next one last. A turn takes that one off,
adds what it shows to what was found, and puts the nodes to be gone through below it onto the
stack in reverse, so that the first of them comes next. Which nodes are shown, and which are gone
into, is up to the traversal: one may leave a node out, and another may show it but pass what is
below it.

A recursion goes through the same nodes without a stack (`IsRecursion`). So each moment *promises*
a list: what was found, and then what the recursion finds at the nodes that wait, the last one
first (`State.promised`). A turn keeps the promise (`promised_of_turn?`), and a run does
(`promised_of_run`). When nothing waits any more, what was found is what the recursion finds
(`Finds.eq_flatMap`).
-/

namespace SyntaxForest

open Relation

/-- **A traversal**: what a node adds to what is found, and the nodes that are gone through below
it. -/
structure Traversal (α : Type) where
  shown : α → List α
  below : α → List α

namespace Traversal

/-- **A moment of a traversal**: what was found, and the stack. -/
structure State (α : Type) where
  found : List α
  /-- The nodes that wait, the next one last. -/
  stack : List α

variable {α : Type} {w : Traversal α} {s s' : State α} {f : α → List α} {n : α}
  {nodes out : List α}

/-- **One turn**, if a node waits. -/
def turn? (w : Traversal α) (s : State α) : Option (State α) :=
  s.stack.getLast?.map fun n => ⟨s.found ++ w.shown n, s.stack.dropLast ++ (w.below n).reverse⟩

/-- **A run**: any number of turns. -/
def Run (w : Traversal α) : State α → State α → Prop :=
  ReflTransGen fun s s' => w.turn? s = some s'

/-- **What a traversal finds** from several nodes, the first one first, until nothing waits. -/
def Finds (w : Traversal α) (nodes out : List α) : Prop :=
  w.Run ⟨[], nodes.reverse⟩ ⟨out, []⟩

/-- **The recursion of a traversal**: what a node shows, then what is found at each node below. -/
def IsRecursion (w : Traversal α) (f : α → List α) : Prop :=
  ∀ n, f n = w.shown n ++ (w.below n).flatMap f

/-- **What a moment promises** to find in all, by a recursion. -/
def State.promised (f : α → List α) (s : State α) : List α :=
  s.found ++ s.stack.reverse.flatMap f

/-! ## One turn -/

/-- **What a turn does.** -/
theorem turn?_eq_some_iff : w.turn? s = some s' ↔ ∃ n waiting, s.stack = waiting ++ [n]
    ∧ s' = ⟨s.found ++ w.shown n, waiting ++ (w.below n).reverse⟩ := by
  rw [turn?, Option.map_eq_some_iff]
  constructor
  · rintro ⟨n, hn, rfl⟩
    obtain ⟨waiting, hstack⟩ := List.getLast?_eq_some_iff.mp hn
    exact ⟨n, waiting, hstack, by rw [hstack, List.dropLast_concat]⟩
  · rintro ⟨n, waiting, hstack, rfl⟩
    exact ⟨n, by rw [hstack, List.getLast?_concat], by rw [hstack, List.dropLast_concat]⟩

/-- **A turn keeps the promise.** -/
theorem promised_of_turn? (hf : w.IsRecursion f) (h : w.turn? s = some s') :
    s'.promised f = s.promised f := by
  obtain ⟨n, waiting, hstack, rfl⟩ := turn?_eq_some_iff.mp h
  calc (s.found ++ w.shown n) ++ (waiting ++ (w.below n).reverse).reverse.flatMap f
      = s.found ++ ((w.shown n ++ (w.below n).flatMap f) ++ waiting.reverse.flatMap f) := by
        simp only [List.reverse_append, List.reverse_reverse, List.flatMap_append,
          List.append_assoc]
    _ = s.found ++ (f n ++ waiting.reverse.flatMap f) := by rw [← hf n]
    _ = s.promised f := by
        rw [State.promised, hstack, List.reverse_concat, List.flatMap_cons]

/-- What was found before makes no difference. -/
theorem turn?_append (before : List α) (h : w.turn? s = some s') :
    w.turn? ⟨before ++ s.found, s.stack⟩ = some ⟨before ++ s'.found, s'.stack⟩ := by
  obtain ⟨n, waiting, hstack, rfl⟩ := turn?_eq_some_iff.mp h
  exact turn?_eq_some_iff.mpr ⟨n, waiting, hstack, by rw [List.append_assoc]⟩

/-! ## Runs -/

/-- **A run keeps the promise.** -/
theorem promised_of_run (hf : w.IsRecursion f) (h : w.Run s s') :
    s'.promised f = s.promised f := by
  induction h with
  | refl => rfl
  | tail _ hturn ih => exact (promised_of_turn? hf hturn).trans ih

/-- **What a traversal finds is what its recursion finds.** -/
theorem Finds.eq_flatMap (h : w.Finds nodes out) (hf : w.IsRecursion f) :
    out = nodes.flatMap f := by
  have hpromised := promised_of_run hf h
  simpa only [State.promised, List.reverse_nil, List.flatMap_nil, List.append_nil,
    List.nil_append, List.reverse_reverse] using hpromised

theorem Run.append (before : List α) (h : w.Run s s') :
    w.Run ⟨before ++ s.found, s.stack⟩ ⟨before ++ s'.found, s'.stack⟩ := by
  induction h with
  | refl => exact .refl
  | tail _ hturn ih => exact ih.tail (turn?_append before hturn)

theorem Finds.nil : w.Finds [] [] := ReflTransGen.refl

/-- **Taking the first node.** -/
theorem Finds.cons (h : w.Finds (w.below n ++ nodes) out) :
    w.Finds (n :: nodes) (w.shown n ++ out) := by
  have hturn : w.turn? ⟨[], (n :: nodes).reverse⟩
      = some ⟨w.shown n ++ [], (w.below n ++ nodes).reverse⟩ :=
    turn?_eq_some_iff.mpr ⟨n, nodes.reverse, List.reverse_cons, by
      rw [List.append_nil, List.nil_append, List.reverse_append]⟩
  exact ReflTransGen.head hturn (Run.append (w.shown n) h)

end Traversal

end SyntaxForest
