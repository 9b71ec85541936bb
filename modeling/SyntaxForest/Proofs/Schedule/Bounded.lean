import SyntaxForest.Proofs.Schedule.Interleaving
import SyntaxForest.Proofs.Schedule.Results

/-!
# The books of a bounded run

Every job that was begun is in one place: it is in flight, or it has a result, or its
fault is the one that ends the run. `Config.places` lists these places and
`Config.outcomes` how the jobs there have ended; `Pool.Sound` ties both to the trace and
says what is known at each phase. Each step of a run keeps it (`Pool.Sound.step`): steps
between loops change the phase only (`Sound.move`), and the four that touch a job each
move its number from one place to the next (`Sound.begin`, `Sound.finish`, `Sound.keep`,
`Sound.fault`).
-/

namespace SyntaxForest.Schedule

variable {σ ε ρ : Type}

/-! ## Traces -/

@[simp] theorem begunIn_append (a b : List (Event ε ρ)) :
    begunIn (a ++ b) = begunIn a ++ begunIn b := List.filterMap_append ..

@[simp] theorem endedIn_append (a b : List (Event ε ρ)) :
    endedIn (a ++ b) = endedIn a ++ endedIn b := List.filterMap_append ..

/-- The ends that a trace notes are those of jobs. -/
theorem mem_endedIn {events : List (Event ε ρ)} {i : Nat} {outcome : Except ε ρ} :
    (i, outcome) ∈ endedIn events ↔ .ended i outcome ∈ events := by
  rw [endedIn, List.mem_filterMap]
  constructor
  · rintro ⟨event, hevent, heq⟩
    cases event with
    | ended j o =>
      obtain ⟨rfl, rfl⟩ := Prod.mk.inj (Option.some.inj heq)
      exact hevent
    | _ => cases heq
  · exact fun h => ⟨_, h, rfl⟩

/-- The jobs in flight that have ended, and how they did. -/
def endsOf (flights : List (Nat × Option (Except ε ρ))) : List (Nat × Except ε ρ) :=
  flights.filterMap fun j => j.2.map (j.1, ·)

@[simp] theorem endsOf_append (a b : List (Nat × Option (Except ε ρ))) :
    endsOf (a ++ b) = endsOf a ++ endsOf b := List.filterMap_append ..

@[simp] theorem endsOf_cons_none (i : Nat) (flights : List (Nat × Option (Except ε ρ))) :
    endsOf ((i, none) :: flights) = endsOf flights := rfl

@[simp] theorem endsOf_cons_some (i : Nat) (outcome : Except ε ρ)
    (flights : List (Nat × Option (Except ε ρ))) :
    endsOf ((i, some outcome) :: flights) = (i, outcome) :: endsOf flights := rfl

namespace Config

/-- The jobs of which anything is known: in flight, with a result, or with the fault that
ends the run. -/
def places (c : Config σ ε ρ) : List Nat :=
  c.inFlight.map Prod.fst ++ (c.results.map Prod.fst ++ c.phase.lost.map Prod.fst)

/-- The outcomes of the jobs that have ended. -/
def outcomes (c : Config σ ε ρ) : List (Nat × Except ε ρ) :=
  endsOf c.inFlight ++ (c.results.map (fun r => (r.1, .ok r.2))
    ++ c.phase.lost.map fun f => (f.1, .error f.2))

end Config

open scoped List in
/-- One of the first moves behind the second. -/
theorem perm_moved {α : Type} (a b r : List α) (x : α) :
    (a ++ x :: b ++ r).Perm (a ++ b ++ (r ++ [x])) :=
  calc a ++ x :: b ++ r = a ++ x :: (b ++ r) := by rw [List.append_assoc, List.cons_append]
    _ ~ x :: (a ++ (b ++ r)) := List.perm_middle
    _ ~ a ++ (b ++ r) ++ [x] := (List.perm_append_singleton x _).symm
    _ = a ++ b ++ (r ++ [x]) := by simp only [List.append_assoc]

namespace Pool

variable {p : Pool σ ε ρ} {c c' : Config σ ε ρ} {event : Event ε ρ} {events : List (Event ε ρ)}

/-! ## What every step keeps -/

/-- **What is known at each phase.** -/
def Stands (p : Pool σ ε ρ) (events : List (Event ε ρ)) (c : Config σ ε ρ) : Phase ε → Prop
  | .admitted => c.next < p.jobs.length ∧ c.inFlight.length < p.limit
  | .filled => c.next < p.jobs.length → c.inFlight.length < p.limit → .looked true ∈ events
  | .collecting ended => ended.Nodup ∧ ∀ i ∈ ended, ∃ outcome, (i, some outcome) ∈ c.inFlight
  | .returned => c.inFlight = [] ∧ (c.next < p.jobs.length → .looked true ∈ events)
  | _ => True

/-- **The books of a run**: jobs were begun in order, each begun job is in flight or has
an outcome, once, and the outcomes are those that the ends of jobs have had. -/
structure Sound (p : Pool σ ε ρ) (events : List (Event ε ρ)) (c : Config σ ε ρ) : Prop where
  next_le : c.next ≤ p.jobs.length
  room : c.inFlight.length ≤ p.limit
  begun : begunIn events = List.range c.next
  places : c.places.Perm (List.range c.next)
  ended : (endedIn events).Perm c.outcomes
  stands : p.Stands events c c.phase

/-- At the beginning the books are empty. -/
theorem Sound.initial (s : σ) : p.Sound [] (.initial s) :=
  ⟨Nat.zero_le _, Nat.zero_le _, rfl, .nil, .nil, trivial⟩

/-- A step that only goes to another phase. -/
theorem Sound.move (h : p.Sound events c) {phase : Phase ε} (hlost : phase.lost = c.phase.lost)
    (hbegun : begunIn [event] = []) (hended : endedIn [event] = [])
    (hstands : p.Stands (events ++ [event]) c phase) :
    p.Sound (events ++ [event]) { c with phase } := by
  refine ⟨h.next_le, h.room, ?_, ?_, ?_, ?_⟩
  · rw [begunIn_append, hbegun, List.append_nil]
    exact h.begun
  · unfold Config.places
    rw [hlost]
    exact h.places
  · unfold Config.outcomes
    rw [endedIn_append, hended, List.append_nil, hlost]
    exact h.ended
  · revert hstands
    cases phase <;> exact id

/-- What is known stays so as the trace goes on and jobs end. -/
theorem Stands.mono {phase : Phase ε} (h : p.Stands events c phase) (hnext : c'.next = c.next)
    (hlength : c'.inFlight.length = c.inFlight.length)
    (hkept : ∀ i outcome, (i, some outcome) ∈ c.inFlight → (i, some outcome) ∈ c'.inFlight) :
    p.Stands (events ++ [event]) c' phase := by
  cases phase with
  | admitted => exact ⟨hnext ▸ h.1, hlength ▸ h.2⟩
  | filled =>
    intro hlt hroom
    exact List.mem_append_left _ (h (hnext ▸ hlt) (hlength ▸ hroom))
  | collecting ended =>
    refine ⟨h.1, fun i hi => ?_⟩
    obtain ⟨outcome, hin⟩ := h.2 i hi
    exact ⟨outcome, hkept i outcome hin⟩
  | returned =>
    obtain ⟨hnone, hstopped⟩ := h
    rw [hnone] at hlength
    exact ⟨List.eq_nil_of_length_eq_zero hlength,
      fun hlt => List.mem_append_left _ (hstopped (hnext ▸ hlt))⟩
  | _ => trivial

/-- A job is begun. -/
theorem Sound.begin (h : p.Sound events c) (hphase : c.phase = .admitted) :
    p.Sound (events ++ [.begun c.next])
      { c with phase := .filling, next := c.next + 1,
               inFlight := c.inFlight ++ [(c.next, none)] } := by
  have hstands : p.Stands events c .admitted := hphase ▸ h.stands
  have hplaces : (c.inFlight.map Prod.fst ++ (c.results.map Prod.fst ++ [])).Perm
      (List.range c.next) := by
    have := h.places
    rwa [Config.places, hphase] at this
  have hended := h.ended
  rw [Config.outcomes, hphase] at hended
  refine ⟨hstands.1, ?_, ?_, ?_, ?_, trivial⟩
  · rw [List.length_append]
    exact hstands.2
  · rw [begunIn_append, h.begun, List.range_succ]
    rfl
  · rw [List.range_succ, Config.places, List.map_append, List.append_assoc]
    refine (List.perm_append_comm.append_left _).trans ?_
    rw [← List.append_assoc]
    exact hplaces.append_right [c.next]
  · rw [endedIn_append, Config.outcomes, endsOf_append]
    show (endedIn events ++ []).Perm (endsOf c.inFlight ++ [] ++ _)
    rw [List.append_nil, List.append_nil]
    exact hended

section

variable {i : Nat} {ended : List Nat} {before after : List (Nat × Option (Except ε ρ))}
  {outcome : Except ε ρ}

/-- What is left to collect is still in the window when one is taken out. -/
theorem collecting_tail (hstands : p.Stands events c (.collecting (i :: ended)))
    (hflight : c.inFlight = before ++ (i, some outcome) :: after) :
    ended.Nodup ∧ ∀ j ∈ ended, ∃ o, (j, some o) ∈ before ++ after := by
  obtain ⟨hdistinct, hin⟩ := hstands
  rw [List.nodup_cons] at hdistinct
  refine ⟨hdistinct.2, fun j hj => ?_⟩
  obtain ⟨o, ho⟩ := hin j (List.mem_cons_of_mem _ hj)
  have hne : (j, some o) ≠ (i, some outcome) := fun heq =>
    hdistinct.1 ((Prod.mk.inj heq).1 ▸ hj)
  rw [hflight, List.mem_append, List.mem_cons, or_iff_right_of_imp (absurd · hne)] at ho
  exact ⟨o, List.mem_append.mpr ho⟩

theorem length_of_taken (hflight : c.inFlight = before ++ (i, some outcome) :: after) :
    (before ++ after).length ≤ c.inFlight.length := by
  rw [hflight, List.length_append, List.length_append, List.length_cons]
  omega

/-- A value is taken from the window. -/
theorem Sound.keep {r : ρ} (h : p.Sound events c) (hphase : c.phase = .collecting (i :: ended))
    (hflight : c.inFlight = before ++ (i, some (.ok r)) :: after) :
    p.Sound (events ++ [.collected i (.ok r)])
      { c with phase := .collecting ended, inFlight := before ++ after,
               results := c.results ++ [(i, r)] } := by
  have hplaces := h.places
  have hended := h.ended
  rw [Config.places, hphase, hflight] at hplaces
  rw [Config.outcomes, hphase, hflight] at hended
  refine ⟨h.next_le, Nat.le_trans (length_of_taken hflight) h.room, ?_, ?_, ?_, ?_⟩
  · rw [begunIn_append]
    exact (List.append_nil _).trans h.begun
  · refine List.Perm.trans ?_ hplaces
    have hmoved := perm_moved (before.map Prod.fst) (after.map Prod.fst) (c.results.map Prod.fst) i
    simpa [Config.places, Phase.lost] using hmoved.symm
  · rw [endedIn_append]
    refine (List.append_nil _).symm ▸ hended.trans ?_
    have hmoved := perm_moved (endsOf before) (endsOf after)
      (c.results.map fun r => (r.1, Except.ok r.2)) (i, Except.ok r)
    simpa [Config.outcomes, Phase.lost] using hmoved
  · exact collecting_tail (hphase ▸ h.stands) hflight

/-- A fault is taken from the window. -/
theorem Sound.fault {fault : ε} (h : p.Sound events c)
    (hphase : c.phase = .collecting (i :: ended))
    (hflight : c.inFlight = before ++ (i, some (.error fault)) :: after) :
    p.Sound (events ++ [.collected i (.error fault)])
      { c with phase := .closing i fault, inFlight := before ++ after } := by
  have hplaces := h.places
  have hended := h.ended
  rw [Config.places, hphase, hflight] at hplaces
  rw [Config.outcomes, hphase, hflight] at hended
  refine ⟨h.next_le, Nat.le_trans (length_of_taken hflight) h.room, ?_, ?_, ?_, trivial⟩
  · rw [begunIn_append]
    exact (List.append_nil _).trans h.begun
  · refine List.Perm.trans ?_ hplaces
    have hmoved := perm_moved (before.map Prod.fst) (after.map Prod.fst) (c.results.map Prod.fst) i
    simpa [Config.places, Phase.lost] using hmoved.symm
  · rw [endedIn_append]
    refine (List.append_nil _).symm ▸ hended.trans ?_
    have hmoved := perm_moved (endsOf before) (endsOf after)
      (c.results.map fun r => (r.1, Except.ok r.2)) (i, Except.error fault)
    simpa [Config.outcomes, Phase.lost] using hmoved

/-- A job in flight ends. -/
theorem Sound.finish {s : σ} (h : p.Sound events c)
    (hflight : c.inFlight = before ++ (i, none) :: after) :
    p.Sound (events ++ [.ended i outcome])
      { c with inFlight := before ++ (i, some outcome) :: after, shared := s } := by
  have hroom := h.room
  have hplaces := h.places
  have hended := h.ended
  rw [hflight] at hroom
  rw [Config.places, hflight] at hplaces
  rw [Config.outcomes, hflight] at hended
  refine ⟨h.next_le, ?_, ?_, ?_, ?_, ?_⟩
  · simpa using hroom
  · rw [begunIn_append]
    exact (List.append_nil _).trans h.begun
  · simpa [Config.places] using hplaces
  · rw [endedIn_append]
    refine (hended.append_right [(i, outcome)]).trans ?_
    have hmoved := perm_moved (endsOf before) (endsOf after)
      (c.results.map (fun r => (r.1, Except.ok r.2))
        ++ c.phase.lost.map fun f => (f.1, Except.error f.2)) (i, outcome)
    simpa [Config.outcomes] using hmoved.symm
  · refine h.stands.mono rfl ?_ fun j o hj => ?_
    · rw [hflight, List.length_append, List.length_append]
      rfl
    · rw [hflight, List.mem_append, List.mem_cons] at hj
      have hne : (j, some o) ≠ (i, (none : Option (Except ε ρ))) := fun heq =>
        nomatch (Prod.mk.inj heq).2
      rw [or_iff_right_of_imp (absurd · hne)] at hj
      exact List.mem_append.mpr (hj.imp_right (List.mem_cons_of_mem _))

end

/-- **Each step keeps the books.** -/
theorem Sound.step (hlimit : 0 < p.limit) (h : p.Sound events c) (hstep : p.Step c event c') :
    p.Sound (events ++ [event]) c' := by
  have hstands := h.stands
  cases hstep with
  | enter hphase _ => exact h.move (by rw [hphase]; rfl) rfl rfl trivial
  | leave hphase hnext hnone =>
    exact h.move (by rw [hphase]; rfl) rfl rfl ⟨hnone, fun hlt => absurd hlt hnext⟩
  | look hphase hnext hroom =>
    cases hstop : p.stop c.shared with
    | false => exact h.move (by rw [hphase]; rfl) rfl rfl ⟨hnext, hroom⟩
    | true =>
      refine h.move (by rw [hphase]; rfl) rfl rfl fun _ _ => ?_
      exact List.mem_append_right _ (List.mem_singleton.mpr rfl)
  | begin hphase => exact h.begin hphase
  | full hphase hfull =>
    exact h.move (by rw [hphase]; rfl) rfl rfl fun hnext hroom => absurd ⟨hnext, hroom⟩ hfull
  | idle hphase hnone =>
    rw [hphase] at hstands
    refine h.move (by rw [hphase]; rfl) rfl rfl ⟨hnone, fun hnext => ?_⟩
    refine List.mem_append_left _ (hstands hnext ?_)
    rw [hnone]
    exact hlimit
  | wake hphase _ hdistinct hended =>
    exact h.move (by rw [hphase]; rfl) rfl rfl ⟨hdistinct, hended⟩
  | keep hphase hflight => exact h.keep hphase hflight
  | fault hphase hflight => exact h.fault hphase hflight
  | next hphase => exact h.move (by rw [hphase]; rfl) rfl rfl trivial
  | close hphase _ => exact h.move (by rw [hphase]; rfl) rfl rfl trivial
  | finish _ hflight => exact h.finish hflight
  | outside _ =>
    refine ⟨h.next_le, h.room, ?_, h.places, ?_, ?_⟩
    · rw [begunIn_append]
      exact (List.append_nil _).trans h.begun
    · rw [endedIn_append]
      exact (List.append_nil (endedIn events)).symm ▸ h.ended
    · exact h.stands.mono rfl rfl fun _ _ hin => hin

end Pool

end SyntaxForest.Schedule
