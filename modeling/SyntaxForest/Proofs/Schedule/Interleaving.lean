import Mathlib.Data.List.Perm.Basic
import SyntaxForest.Schedule

/-!
# Bounded runs, step by step

`Schedule.bounded` runs one job after another inside its window. Workers that run the
jobs beside the schedule can do more: jobs end whenever they end, several before the
schedule looks again, and the state that jobs share changes at any moment. This module
has the schedule's two loops as a step relation (`Pool.Step`), in which each look at the
shared state, each beginning of a job, each end of one and each collected result is a
step of its own, and everything else that may happen comes between.

What a job does is seen when it ends; what it does before that, and what the caller
does, is what `Pool.outside` allows. `Pool.Runs` keeps the trace of a run, in which the
main statements are made: see `Proofs.Schedule.Bounded`.
-/

namespace SyntaxForest.Schedule

/-- **What a bounded run is given.** -/
structure Pool (σ ε ρ : Type) where
  jobs : List (Job σ ε ρ)
  /-- How many jobs may be in flight. -/
  limit : Nat
  /-- Whether the shared state says stop. -/
  stop : σ → Bool
  /-- How the shared state may change at any moment, beside the ends of jobs. -/
  outside : σ → σ → Prop

/-- **Where the schedule stands.** -/
inductive Phase (ε : Type)
  /-- At the head of the loop that goes on while there is anything to do. -/
  | head
  /-- At the head of the loop that fills the window. -/
  | filling
  /-- The state did not say stop, and the next job is about to be begun. -/
  | admitted
  /-- The window is left as it is, and some job has to end. -/
  | filled
  /-- At the head of the loop over the jobs whose ends were noticed. -/
  | collecting (ended : List Nat)
  /-- A fault was collected, and the jobs in flight come to their ends. -/
  | closing (i : Nat) (fault : ε)
  | returned
  | raised (i : Nat) (fault : ε)

/-- The fault that was collected, with the place of its job. -/
def Phase.lost {ε : Type} : Phase ε → List (Nat × ε)
  | closing i fault | raised i fault => [(i, fault)]
  | _ => []

/-- Whether the run has come to its end. -/
def Phase.isLast {ε : Type} : Phase ε → Bool
  | returned | raised .. => true
  | _ => false

/-- **A moment of a bounded run.** -/
structure Config (σ ε ρ : Type) where
  phase : Phase ε
  /-- The place of the job that is begun next. -/
  next : Nat
  /-- The jobs in flight, and how those have ended that have. -/
  inFlight : List (Nat × Option (Except ε ρ))
  results : List (Nat × ρ)
  shared : σ

/-- **What is seen of a step.** -/
inductive Event (ε ρ : Type)
  /-- The schedule looks whether the state says stop. -/
  | looked (stopped : Bool)
  | begun (i : Nat)
  | ended (i : Nat) (outcome : Except ε ρ)
  /-- The outcome of a job is taken from the window. -/
  | collected (i : Nat) (outcome : Except ε ρ)
  /-- The schedule goes from one loop to the next. -/
  | moved
  /-- The shared state is changed from outside. -/
  | changed

variable {σ ε ρ : Type}

/-- Whether a step is one of the run, and not a change from outside. -/
def Event.isOwn : Event ε ρ → Bool
  | changed => false
  | _ => true

/-- The places of the jobs that were begun, in order. -/
def begunIn (events : List (Event ε ρ)) : List Nat :=
  events.filterMap fun
    | .begun i => some i
    | _ => none

/-- The jobs that ended, in order, and how they did. -/
def endedIn (events : List (Event ε ρ)) : List (Nat × Except ε ρ) :=
  events.filterMap fun
    | .ended i outcome => some (i, outcome)
    | _ => none

namespace Config

/-- The moment before the first step. -/
def initial (s : σ) : Config σ ε ρ := ⟨.head, 0, [], [], s⟩

/-- What a run yields that returns at this moment. -/
def run (c : Config σ ε ρ) (p : Pool σ ε ρ) : Run ρ := ⟨c.results, p.jobs.length - c.next⟩

/-- **What a run comes to**, if this is its end. -/
def answer? (c : Config σ ε ρ) (p : Pool σ ε ρ) : Option (Except (Fault ε) (Run ρ) × σ) :=
  match c.phase with
  | .returned => some (.ok (c.run p), c.shared)
  | .raised _ fault => some (.error (.job fault), c.shared)
  | _ => none

end Config

namespace Pool

variable (p : Pool σ ε ρ)

/-- **One step of a bounded run.** -/
inductive Step : Config σ ε ρ → Event ε ρ → Config σ ε ρ → Prop
  | enter {c} (hphase : c.phase = .head) (hmore : c.next < p.jobs.length ∨ c.inFlight ≠ []) :
      Step c .moved { c with phase := .filling }
  | leave {c} (hphase : c.phase = .head) (hnext : ¬ c.next < p.jobs.length)
      (hnone : c.inFlight = []) : Step c .moved { c with phase := .returned }
  | look {c} (hphase : c.phase = .filling) (hnext : c.next < p.jobs.length)
      (hroom : c.inFlight.length < p.limit) :
      Step c (.looked (p.stop c.shared))
        { c with phase := if p.stop c.shared then .filled else .admitted }
  | begin {c} (hphase : c.phase = .admitted) :
      Step c (.begun c.next)
        { c with phase := .filling, next := c.next + 1, inFlight := c.inFlight ++ [(c.next, none)] }
  | full {c} (hphase : c.phase = .filling)
      (hfull : ¬ (c.next < p.jobs.length ∧ c.inFlight.length < p.limit)) :
      Step c .moved { c with phase := .filled }
  | idle {c} (hphase : c.phase = .filled) (hnone : c.inFlight = []) :
      Step c .moved { c with phase := .returned }
  /-- Some of the jobs that have ended are noticed, at least one. -/
  | wake {c ended} (hphase : c.phase = .filled) (hsome : ended ≠ []) (hdistinct : ended.Nodup)
      (hended : ∀ i ∈ ended, ∃ outcome, (i, some outcome) ∈ c.inFlight) :
      Step c .moved { c with phase := .collecting ended }
  | keep {c i r ended before after} (hphase : c.phase = .collecting (i :: ended))
      (hflight : c.inFlight = before ++ (i, some (.ok r)) :: after) :
      Step c (.collected i (.ok r))
        { c with phase := .collecting ended, inFlight := before ++ after,
                 results := c.results ++ [(i, r)] }
  | fault {c i fault ended before after} (hphase : c.phase = .collecting (i :: ended))
      (hflight : c.inFlight = before ++ (i, some (.error fault)) :: after) :
      Step c (.collected i (.error fault))
        { c with phase := .closing i fault, inFlight := before ++ after }
  | next {c} (hphase : c.phase = .collecting []) : Step c .moved { c with phase := .head }
  | close {c i fault} (hphase : c.phase = .closing i fault)
      (hended : ∀ j ∈ c.inFlight, j.2.isSome = true) :
      Step c .moved { c with phase := .raised i fault }
  /-- A job in flight comes to its end. -/
  | finish {c i job before after} (hjob : p.jobs[i]? = some job)
      (hflight : c.inFlight = before ++ (i, none) :: after) :
      Step c (.ended i (job c.shared).1)
        { c with inFlight := before ++ (i, some (job c.shared).1) :: after,
                 shared := (job c.shared).2 }
  | outside {c s} (hchange : p.outside c.shared s) : Step c .changed { c with shared := s }

/-- **A run and its trace.** -/
inductive Runs : Config σ ε ρ → List (Event ε ρ) → Config σ ε ρ → Prop
  | nil {c} : Runs c [] c
  | cons {c c' c'' event events} (hstep : p.Step c event c') (hrest : Runs c' events c'') :
      Runs c (event :: events) c''

/-- **A stop is kept**: neither a job nor anything outside takes it back. -/
structure Sticky : Prop where
  outside : ∀ s s', p.outside s s' → p.stop s = true → p.stop s' = true
  job : ∀ job ∈ p.jobs, ∀ s, p.stop s = true → p.stop (job s).2 = true

variable {p} {c c' c'' : Config σ ε ρ} {event : Event ε ρ} {events events' : List (Event ε ρ)}

namespace Runs

theorem single (h : p.Step c event c') : p.Runs c [event] c' := .cons h .nil

/-- Two runs, one after the other, are a run. -/
theorem append (h : p.Runs c events c') (h' : p.Runs c' events' c'') :
    p.Runs c (events ++ events') c'' := by
  induction h with
  | nil => exact h'
  | cons hstep _ ih => exact .cons hstep (ih h')

/-- A run through one of its steps. -/
theorem split (h : p.Runs c (events ++ event :: events') c'') :
    ∃ d d', p.Runs c events d ∧ p.Step d event d' ∧ p.Runs d' events' c'' := by
  induction events generalizing c with
  | nil =>
    cases h with
    | cons hstep hrest => exact ⟨c, _, .nil, hstep, hrest⟩
  | cons e events ih =>
    cases h with
    | cons hstep hrest =>
      obtain ⟨d, d', hbefore, hmid, hafter⟩ := ih hrest
      exact ⟨d, d', .cons hstep hbefore, hmid, hafter⟩

/-- **What each step keeps, a run keeps**: a statement about the trace so far and the
moment it has led to. -/
theorem induction {motive : List (Event ε ρ) → Config σ ε ρ → Prop}
    (hstep : ∀ events c event c', motive events c → p.Step c event c' →
      motive (events ++ [event]) c')
    (h : p.Runs c events c') (hfirst : motive [] c) : motive events c' := by
  suffices hgo : ∀ before, motive before c → motive (before ++ events) c' from hgo [] hfirst
  clear hfirst
  induction h with
  | nil => exact fun before hbefore => (List.append_nil before).symm ▸ hbefore
  | cons hone _ ih =>
    intro before hbefore
    rw [List.append_cons]
    exact ih _ (hstep before _ _ _ hbefore hone)

end Runs

end Pool

end SyntaxForest.Schedule
