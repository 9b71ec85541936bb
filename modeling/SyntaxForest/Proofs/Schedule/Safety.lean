import Mathlib
import SyntaxForest.Proofs.Schedule.Bounded
import SyntaxForest.Proofs.Schedule.Simulation

/-!
# Bounded runs are safe in every order

What callers rely on in a bounded run, whichever jobs end when and whatever happens to
the shared state beside them: the window is never over its limit, the first jobs are
begun and no job twice, each begun job is in flight or has its own result, a stop that
was seen lets no further job begin, and a run that returns has exactly the results of
the jobs it has begun (`Safe`, `bounded_safe`). The books of a run
(`Proofs.Schedule.Bounded`) carry the first of these; the others are about what follows a
step in the trace.

A run also gets to its end, which is part of its safety: as long as it has not, some step of
its own is open (`Pool.Sound.progress`), and each of them leaves less to do
(`Pool.Sound.work_lt`).
-/

namespace SyntaxForest.Schedule

variable {σ ε ρ : Type}

namespace Pool

variable {p : Pool σ ε ρ} {c c' d d' : Config σ ε ρ} {event : Event ε ρ}
  {events before after : List (Event ε ρ)} {s : σ}

/-- **A run keeps the books.** -/
theorem Runs.sound (hlimit : 0 < p.limit) (h : p.Runs (.initial s) events c) :
    p.Sound events c :=
  h.induction (fun _ _ _ _ hsound hstep => hsound.step hlimit hstep) (.initial s)

/-! ## When no further job is begun -/

/-- **Nothing is begun** where every step keeps to moments at which none is. -/
theorem Runs.begunIn_eq_nil {Q : Config σ ε ρ → Prop}
    (hstep : ∀ c event c', Q c → p.Step c event c' → Q c' ∧ begunIn [event] = [])
    (h : p.Runs c events c') (hQ : Q c) : begunIn events = [] := by
  induction h with
  | nil => rfl
  | cons hone _ ih =>
    obtain ⟨hQ', hnone⟩ := hstep _ _ _ hQ hone
    rw [← List.singleton_append, begunIn_append, hnone, ih hQ', List.append_nil]

/-- The state says stop, and no job was admitted before it did. -/
def Stopped (p : Pool σ ε ρ) (c : Config σ ε ρ) : Prop :=
  p.stop c.shared = true ∧ c.phase ≠ .admitted

/-- **Each step from a stopped state** begins no job, and the state stays stopped. -/
theorem Stopped.step (hsticky : p.Sticky) (h : p.Stopped c) (hstep : p.Step c event c') :
    p.Stopped c' ∧ begunIn [event] = [] := by
  obtain ⟨hstop, hphase⟩ := h
  cases hstep with
  | look _ _ _ =>
    refine ⟨⟨hstop, ?_⟩, rfl⟩
    show (if p.stop c.shared = true then Phase.filled else Phase.admitted) ≠ .admitted
    rw [if_pos hstop]
    exact nofun
  | begin hadmitted => exact absurd hadmitted hphase
  | finish hjob _ => exact ⟨⟨hsticky.job _ (List.mem_of_getElem? hjob) _ hstop, hphase⟩, rfl⟩
  | outside hchange => exact ⟨⟨hsticky.outside _ _ hchange hstop, hphase⟩, rfl⟩
  | _ => exact ⟨⟨hstop, nofun⟩, rfl⟩

/-- **After the schedule has seen a stop** no job is begun. -/
theorem Runs.obeys (hsticky : p.Sticky) (h : p.Runs c (before ++ .looked true :: after) c') :
    begunIn after = [] := by
  obtain ⟨d, d', -, hlook, hafter⟩ := h.split
  refine hafter.begunIn_eq_nil (fun _ _ _ hQ hone => Stopped.step hsticky hQ hone) ?_
  generalize heq : Event.looked true = event at hlook
  cases hlook with
  | look _ _ _ =>
    have hstop := (Event.looked.inj heq).symm
    refine ⟨hstop, ?_⟩
    show (if p.stop d.shared = true then Phase.filled else Phase.admitted) ≠ .admitted
    rw [if_pos hstop]
    exact nofun
  | _ => cases heq

/-- The fault of a job is on its way to the caller. -/
def Faulted (i : Nat) (fault : ε) (c : Config σ ε ρ) : Prop :=
  c.phase = .closing i fault ∨ c.phase = .raised i fault

/-- **Each step after a fault** begins no job, and the fault stays on its way. -/
theorem Faulted.step {i : Nat} {fault : ε} (h : Faulted i fault c) (hstep : p.Step c event c') :
    Faulted i fault c' ∧ begunIn [event] = [] := by
  cases hstep with
  | finish _ _ => exact ⟨h, rfl⟩
  | outside _ => exact ⟨h, rfl⟩
  | close hphase _ =>
    rw [Faulted, hphase] at h
    rcases h with h | h
    · cases h
      exact ⟨.inr rfl, rfl⟩
    · cases h
  | _ hphase =>
    rw [Faulted, hphase] at h
    rcases h with h | h <;> cases h

/-- **After a fault was collected** no job is begun, and the run ends with it. -/
theorem Runs.raises {i : Nat} {fault : ε}
    (h : p.Runs c (before ++ .collected i (.error fault) :: after) c') :
    begunIn after = [] ∧ Faulted i fault c' := by
  obtain ⟨d, d', -, hfault, hafter⟩ := h.split
  have hfirst : Faulted i fault d' := by
    generalize heq : Event.collected i (.error fault) = event at hfault
    cases hfault with
    | fault hphase _ =>
      cases heq
      exact .inl rfl
    | _ => cases heq
  exact ⟨hafter.begunIn_eq_nil (fun _ _ _ hQ hone => Faulted.step hQ hone) hfirst,
    hafter.induction (motive := fun _ c => Faulted i fault c)
      (fun _ _ _ _ hQ hone => (Faulted.step hQ hone).1) hfirst⟩

/-! ## Whose outcomes are recorded -/

/-- **A job ends as itself**: what is seen of the end of a job is what that job comes to
in some state. -/
theorem Runs.ends {i : Nat} {outcome : Except ε ρ} (h : p.Runs (.initial s) events c)
    (hended : .ended i outcome ∈ events) :
    ∃ job s', p.jobs[i]? = some job ∧ (job s').1 = outcome := by
  refine h.induction (motive := fun events _ => ∀ i outcome, .ended i outcome ∈ events →
    ∃ job s', p.jobs[i]? = some job ∧ (job s').1 = outcome) ?_ (fun _ _ => nofun) i outcome hended
  intro events c event c' ih hstep j o hj
  rcases List.mem_append.mp hj with hj | hj
  · exact ih j o hj
  · rw [List.mem_singleton] at hj
    cases hstep with
    | finish hjob _ =>
      cases hj
      exact ⟨_, _, hjob, rfl⟩
    | _ => cases hj

theorem map_fst_endsOf_sublist (flights : List (Nat × Option (Except ε ρ))) :
    ((endsOf flights).map Prod.fst).Sublist (flights.map Prod.fst) := by
  induction flights with
  | nil => exact .slnil
  | cons j rest ih =>
    obtain ⟨i, outcome⟩ := j
    cases outcome with
    | none => exact ih.cons _
    | some o => exact ih.cons_cons _

/-- Outcomes are those of jobs of which something is known. -/
theorem map_fst_outcomes_sublist (c : Config σ ε ρ) :
    (c.outcomes.map Prod.fst).Sublist c.places := by
  unfold Config.outcomes Config.places
  rw [List.map_append, List.map_append, List.map_map, List.map_map]
  exact (map_fst_endsOf_sublist _).append (.refl _)

/-- **No job ends twice.** -/
theorem Sound.ended_nodup (h : p.Sound events c) : ((endedIn events).map Prod.fst).Nodup := by
  rw [(h.ended.map Prod.fst).nodup_iff]
  exact (h.places.nodup_iff.mpr List.nodup_range).sublist (map_fst_outcomes_sublist c)

/-- **A result is the value its own job has ended with.** -/
theorem Sound.own {i : Nat} {r : ρ} (h : p.Sound events c) (hresult : (i, r) ∈ c.results) :
    .ended i (.ok r) ∈ events := by
  rw [← mem_endedIn, h.ended.mem_iff]
  exact List.mem_append_right _ (List.mem_append_left _
    (List.mem_map_of_mem (f := fun r : Nat × ρ => (r.1, Except.ok r.2)) hresult))

/-- The fault that ends a run is that of a job. -/
theorem Sound.lost {i : Nat} {fault : ε} (h : p.Sound events c) (hlost : Faulted i fault c) :
    .ended i (.error fault) ∈ events := by
  rw [← mem_endedIn, h.ended.mem_iff]
  refine List.mem_append_right _ (List.mem_append_right _ ?_)
  rcases hlost with hphase | hphase <;> rw [hphase] <;> exact List.mem_singleton.mpr rfl

/-! ## What a run comes to -/

/-- **A run that returns** has the values of exactly the jobs it has begun. -/
structure Returned (p : Pool σ ε ρ) (events : List (Event ε ρ)) (c : Config σ ε ρ)
    (values : List ρ) : Prop where
  length : values.length = c.next
  /-- Results are there for the first places, as many as there are values. -/
  results : c.results.Perm (indexed values)
  /-- Each value is that of the job at its place. -/
  own : ∀ i r, values[i]? = some r → .ended i (.ok r) ∈ events
  ordered : (c.run p).ordered = values
  cancelled : (c.run p).cancelled = true ↔ values.length < p.jobs.length
  /-- Jobs are only left out when the state was seen to say stop. -/
  stopped : values.length < p.jobs.length → .looked true ∈ events
  /-- No job has failed. -/
  noFault : ∀ i fault, .ended i (.error fault) ∉ events

/-- **A run that has returned** has the values of the jobs that it has begun. -/
theorem Sound.returned (h : p.Sound events c) (hphase : c.phase = .returned) :
    ∃ values : List ρ, Returned p events c values := by
  have hstands := h.stands
  have hplaces := h.places
  have hended := h.ended
  rw [hphase] at hstands
  obtain ⟨hnone, hstopped⟩ := hstands
  have hlost : (Phase.returned : Phase ε).lost = [] := rfl
  rw [Config.places, hphase, hnone, hlost, List.map_nil, List.nil_append, List.map_nil,
    List.append_nil] at hplaces
  rw [Config.outcomes, hphase, hnone, hlost] at hended
  obtain ⟨values, hlength, hresults⟩ := exists_indexed hplaces
  refine ⟨values, hlength, hresults, fun i r hr => ?_, ordered_eq hresults, ?_, ?_, ?_⟩
  · exact h.own (hresults.mem_iff.mpr (mem_indexed.mpr hr))
  · rw [Run.cancelled, decide_eq_true_iff, hlength]
    exact Nat.sub_pos_iff_lt
  · exact hlength ▸ hstopped
  · intro i fault hfault
    rw [← mem_endedIn, hended.mem_iff] at hfault
    simp [endsOf] at hfault

/-! ## Runs end -/

/-- What is left to do at a phase, before the next turn of the outer loop. -/
def rank : Phase ε → Nat
  | .collecting [] => 5
  | .head => 4
  | .filling => 3
  | .admitted | .filled => 2
  | .collecting (_ :: _) | .closing .. => 1
  | .returned | .raised .. => 0

/-- What is left to do for the jobs in flight: a job that has not ended is a step more. -/
def load (flights : List (Nat × Option (Except ε ρ))) : Nat :=
  (flights.map fun j => if j.2.isSome then 5 else 6).sum

/-- **What is left to do** in a run. -/
def work (p : Pool σ ε ρ) (c : Config σ ε ρ) : Nat :=
  10 * (p.jobs.length - c.next) + load c.inFlight + rank c.phase

@[simp] theorem load_nil : load ([] : List (Nat × Option (Except ε ρ))) = 0 := rfl

@[simp] theorem load_append (a b : List (Nat × Option (Except ε ρ))) :
    load (a ++ b) = load a + load b := by
  rw [load, List.map_append, List.sum_append]
  rfl

@[simp] theorem load_cons_none (i : Nat) (flights : List (Nat × Option (Except ε ρ))) :
    load ((i, none) :: flights) = 6 + load flights := by
  rw [load, List.map_cons, List.sum_cons]
  rfl

@[simp] theorem load_cons_some (i : Nat) (outcome : Except ε ρ)
    (flights : List (Nat × Option (Except ε ρ))) :
    load ((i, some outcome) :: flights) = 5 + load flights := by
  rw [load, List.map_cons, List.sum_cons]
  rfl

theorem rank_collecting_le (ended : List Nat) : rank (.collecting ended : Phase ε) ≤ 5 := by
  cases ended with
  | nil => exact Nat.le_refl 5
  | cons _ _ => exact Nat.le_of_ble_eq_true rfl

/-- **Each step of its own** leaves a run less to do. -/
theorem Sound.work_lt (h : p.Sound events c) (hstep : p.Step c event c')
    (hown : event.isOwn = true) : p.work c' < p.work c := by
  have hstands := h.stands
  unfold work
  cases hstep with
  | look hphase _ _ =>
    rw [hphase]
    cases p.stop c.shared <;> exact Nat.lt_succ_self _
  | begin hphase =>
    rw [hphase] at hstands ⊢
    have hnext : c.next < p.jobs.length := hstands.1
    simp only [load_append, load_cons_none, load_nil, rank]
    omega
  | wake hphase hsome _ _ =>
    obtain ⟨i, ended, rfl⟩ := List.exists_cons_of_ne_nil hsome
    rw [hphase]
    exact Nat.lt_succ_self _
  | @keep i r ended before after hphase hflight =>
    have hle := rank_collecting_le (ε := ε) ended
    have hrank : rank (.collecting (i :: ended) : Phase ε) = 1 := rfl
    rw [hphase, hflight, hrank]
    simp only [load_append, load_cons_some]
    omega
  | fault hphase hflight =>
    rw [hphase, hflight]
    simp only [load_append, load_cons_some, rank]
    omega
  | finish _ hflight =>
    rw [hflight]
    simp only [load_append, load_cons_some, load_cons_none]
    omega
  | outside _ => cases hown
  | _ hphase => rw [hphase]; simp only [rank]; omega

/-- **A run has no more steps of its own** than there is to do at its beginning. -/
theorem Runs.length_le (hlimit : 0 < p.limit) (h : p.Runs (.initial s) events c) :
    (events.filter Event.isOwn).length + p.work c ≤ 10 * p.jobs.length + 4 := by
  refine (h.induction (motive := fun events c => p.Sound events c ∧
    (events.filter Event.isOwn).length + p.work c ≤ 10 * p.jobs.length + 4) ?_
    ⟨.initial s, ?_⟩).2
  · intro events c event c' ⟨hsound, hle⟩ hstep
    refine ⟨hsound.step hlimit hstep, ?_⟩
    rw [List.filter_append, List.length_append]
    cases hown : event.isOwn with
    | true =>
      have hlt := hsound.work_lt hstep hown
      rw [List.filter_singleton, hown]
      show _ + 1 + _ ≤ _
      omega
    | false =>
      have heq : p.work c' = p.work c := by
        cases hstep with
        | outside _ => rfl
        | _ => cases hown
      rw [List.filter_singleton, hown, heq]
      exact hle
  · show 0 + (10 * (p.jobs.length - 0) + 0 + 4) ≤ _
    omega

/-- A job in flight that has not ended can. -/
theorem Sound.exists_finish {i : Nat} (h : p.Sound events c) (hin : (i, none) ∈ c.inFlight) :
    ∃ event c', event.isOwn = true ∧ p.Step c event c' := by
  have hplace : i ∈ List.range c.next :=
    h.places.mem_iff.mp (List.mem_append_left _ (List.mem_map_of_mem (f := Prod.fst) hin))
  have hlt : i < p.jobs.length := Nat.lt_of_lt_of_le (List.mem_range.mp hplace) h.next_le
  obtain ⟨before, after, hflight⟩ := List.append_of_mem hin
  exact ⟨_, _, rfl, .finish (List.getElem?_eq_getElem hlt) hflight⟩

/-- In every window some job can end, or has. -/
theorem exists_none_or_forall (flights : List (Nat × Option (Except ε ρ))) :
    (∃ i, (i, none) ∈ flights) ∨ ∀ j ∈ flights, j.2.isSome = true := by
  by_cases h : ∃ i, (i, none) ∈ flights
  · exact .inl h
  · refine .inr fun j hj => ?_
    obtain ⟨i, outcome⟩ := j
    cases outcome with
    | none => exact absurd ⟨i, hj⟩ h
    | some _ => rfl

/-- **A run that has not come to its end** can go on by itself. -/
theorem Sound.progress (h : p.Sound events c) (hlast : c.phase.isLast = false) :
    ∃ event c', event.isOwn = true ∧ p.Step c event c' := by
  have hstands := h.stands
  cases hphase : c.phase with
  | head =>
    by_cases hmore : c.next < p.jobs.length ∨ c.inFlight ≠ []
    · exact ⟨_, _, rfl, .enter hphase hmore⟩
    · rw [not_or, not_not] at hmore
      exact ⟨_, _, rfl, .leave hphase hmore.1 hmore.2⟩
  | filling =>
    by_cases hmore : c.next < p.jobs.length ∧ c.inFlight.length < p.limit
    · exact ⟨_, _, rfl, .look hphase hmore.1 hmore.2⟩
    · exact ⟨_, _, rfl, .full hphase hmore⟩
  | admitted => exact ⟨_, _, rfl, .begin hphase⟩
  | filled =>
    cases hflight : c.inFlight with
    | nil => exact ⟨_, _, rfl, .idle hphase hflight⟩
    | cons j rest =>
      obtain ⟨i, outcome⟩ := j
      have hin : (i, outcome) ∈ c.inFlight := hflight ▸ List.mem_cons_self
      cases outcome with
      | none => exact h.exists_finish hin
      | some o =>
        refine ⟨_, _, rfl, .wake hphase (List.cons_ne_nil i []) (List.pairwise_singleton ..) ?_⟩
        intro k hk
        rw [List.mem_singleton.mp hk]
        exact ⟨o, hin⟩
  | collecting ended =>
    cases ended with
    | nil => exact ⟨_, _, rfl, .next hphase⟩
    | cons i ended =>
      rw [hphase] at hstands
      obtain ⟨outcome, hin⟩ := hstands.2 i List.mem_cons_self
      obtain ⟨before, after, hflight⟩ := List.append_of_mem hin
      cases outcome with
      | ok r => exact ⟨_, _, rfl, .keep hphase hflight⟩
      | error fault => exact ⟨_, _, rfl, .fault hphase hflight⟩
  | closing i fault =>
    rcases exists_none_or_forall c.inFlight with ⟨i, hin⟩ | hended
    · exact h.exists_finish hin
    · exact ⟨_, _, rfl, .close hphase hended⟩
  | returned => rw [hphase] at hlast; cases hlast
  | raised i fault => rw [hphase] at hlast; cases hlast

/-! ## Safety -/

/-- **What holds at every moment of a run**, given what was seen of it so far. -/
structure Safe (p : Pool σ ε ρ) (events : List (Event ε ρ)) (c : Config σ ε ρ) : Prop where
  /-- No more jobs are in flight than the limit allows. -/
  window : c.inFlight.length ≤ p.limit
  next_le : c.next ≤ p.jobs.length
  /-- The jobs begun so far are the first ones, each of them once. -/
  begun : begunIn events = List.range c.next
  /-- Each of them is in flight or has a result, never both. Only where a fault was
  collected, and so at the head of no loop, there is a job that has neither. -/
  held : (c.inFlight.map Prod.fst ++ (c.results.map Prod.fst ++ c.phase.lost.map Prod.fst)).Perm
    (List.range c.next)
  /-- A result is the value that the job at its place has ended with. -/
  own : ∀ i r, (i, r) ∈ c.results → .ended i (.ok r) ∈ events
  ends : ∀ i outcome, .ended i outcome ∈ events →
    ∃ job s, p.jobs[i]? = some job ∧ (job s).1 = outcome
  endsOnce : ((endedIn events).map Prod.fst).Nodup
  /-- No job is begun after the state was seen to say stop. -/
  obeys : ∀ before after, events = before ++ .looked true :: after → begunIn after = []
  returned : c.phase = .returned → ∃ values, Returned p events c values
  /-- After a fault was collected no job is begun, and it is raised. -/
  raises : ∀ before i fault after, events = before ++ .collected i (.error fault) :: after →
    begunIn after = [] ∧ Faulted i fault c
  /-- If a job has failed, a run that is over has raised the fault of a job that has. -/
  raised : ∀ i fault, .ended i (.error fault) ∈ events → c.phase.isLast = true →
    ∃ j fault', c.phase = .raised j fault' ∧ .ended j (.error fault') ∈ events
  /-- A run that is not over can go on by itself. -/
  goesOn : c.phase.isLast = false → ∃ event c', event.isOwn = true ∧ p.Step c event c'
  /-- It gets to its end, for it takes no more steps of its own than the jobs allow. -/
  ownSteps : (events.filter Event.isOwn).length ≤ 10 * p.jobs.length + 4

/-- **Bounded runs are safe in every order**: whichever jobs are in flight when others end,
however many ends are noticed at once, and whenever the state comes to say stop. The runs
of `bounded` are among these, for each choice of the job that ends next. -/
theorem bounded_safe (p : Pool σ ε ρ) (hlimit : 0 < p.limit) (hsticky : p.Sticky) (s : σ) :
    (∀ events c, p.Runs (.initial s) events c → Safe p events c)
      ∧ ∀ completion, ∃ events c, p.Runs (.initial s) events c
          ∧ c.answer? p = some (bounded p.limit p.stop completion p.jobs s) := by
  refine ⟨fun events c h => ?_, fun completion => exists_runs_bounded hlimit completion s⟩
  have hsound := h.sound hlimit
  refine ⟨hsound.room, hsound.next_le, hsound.begun, hsound.places, fun _ _ => hsound.own,
    fun _ _ => h.ends, hsound.ended_nodup, ?_, hsound.returned, ?_, ?_, hsound.progress,
    Nat.le_of_add_right_le (h.length_le hlimit)⟩
  · rintro before after rfl
    exact h.obeys hsticky
  · rintro before i fault after rfl
    exact h.raises
  · intro i fault hended hlast
    cases hphase : c.phase with
    | returned =>
      obtain ⟨values, hvalues⟩ := hsound.returned hphase
      exact absurd hended (hvalues.noFault i fault)
    | raised j fault' => exact ⟨j, fault', rfl, hsound.lost (.inr hphase)⟩
    | _ => rw [hphase] at hlast; cases hlast

/-- Three jobs for a window of two, of which anyone may ask that the run be stopped. -/
def three : Pool Bool String Nat where
  jobs := [fun s => (.ok 10, s), fun s => (.ok 11, s), fun s => (.ok 12, s)]
  limit := 2
  stop := id
  outside _ s := s = true

/-- A stop that was asked for stays. -/
theorem three_sticky : three.Sticky where
  outside _ _ hchange _ := hchange
  job job hjob s hstop := by
    simp only [three, List.mem_cons, List.not_mem_nil, or_false] at hjob
    rcases hjob with rfl | rfl | rfl <;> exact hstop

/-- The second job ends first, and the run is stopped before its end is noticed: the third
job is left out, and the values are in input order. -/
theorem bounded_safe_overtaken :
    (∃ events c, three.Runs (.initial false) events c ∧ Safe three events c
      ∧ c.phase = .returned ∧ (c.run three).ordered = [10, 11]
      ∧ (c.run three).cancelled = true)
    ∧ ∀ completion, ∃ events c, three.Runs (.initial false) events c
        ∧ c.answer? three = some (bounded 2 id completion three.jobs false) := by
  obtain ⟨hsafe, hbounded⟩ := bounded_safe three Nat.two_pos three_sticky false
  refine ⟨?_, hbounded⟩
  -- the first two jobs are begun, and the second ends
  have hfilled : ∃ events, three.Runs (.initial false) events
      ⟨.filled, 2, [(0, none), (1, some (.ok 11))], [], false⟩ :=
    ⟨_, .cons (.enter rfl (.inl (by decide))) <|
      .cons (.look rfl (by decide) (by decide)) <| .cons (.begin rfl) <|
      .cons (.look rfl (by decide) (by decide)) <| .cons (.begin rfl) <|
      .cons (.full rfl (by decide)) <|
      .single (.finish (show three.jobs[1]? = some (fun s => (.ok 11, s)) from rfl)
        (show _ = [(0, none)] ++ (1, none) :: [] from rfl))⟩
  -- the run is stopped, and only then is that end noticed
  have hstopped : ∃ events, three.Runs
      ⟨.filled, 2, [(0, none), (1, some (.ok 11))], [], false⟩ events
      ⟨.filled, 2, [(0, none)], [(1, 11)], true⟩ :=
    ⟨_, .cons (.outside (show three.outside false true from rfl)) <|
      .cons (.wake rfl (show [1] ≠ [] by decide) (by decide) (by simp)) <|
      .cons (.keep rfl (show _ = [(0, none)] ++ (1, some (Except.ok 11)) :: [] from rfl)) <|
      .cons (.next rfl) <| .cons (.enter rfl (.inl (by decide))) <|
      .single (.look rfl (by decide) (by decide))⟩
  -- the first job ends, and there is nothing else to wait for
  have hended : ∃ events, three.Runs ⟨.filled, 2, [(0, none)], [(1, 11)], true⟩ events
      ⟨.returned, 2, [], [(1, 11), (0, 10)], true⟩ :=
    ⟨_, .cons (.finish (show three.jobs[0]? = some (fun s => (.ok 10, s)) from rfl)
        (show _ = [] ++ (0, none) :: [] from rfl)) <|
      .cons (.wake rfl (show [0] ≠ [] by decide) (by decide) (by simp)) <|
      .cons (.keep rfl (show _ = [] ++ (0, some (Except.ok 10)) :: [] from rfl)) <|
      .cons (.next rfl) <| .cons (.enter rfl (.inl (by decide))) <|
      .cons (.look rfl (by decide) (by decide)) <| .single (.idle rfl rfl)⟩
  obtain ⟨before, hfilled⟩ := hfilled
  obtain ⟨between, hstopped⟩ := hstopped
  obtain ⟨after, hended⟩ := hended
  have hruns := hfilled.append (hstopped.append hended)
  exact ⟨_, _, hruns, hsafe _ _ hruns, rfl, ordered_eq (List.Perm.swap ..), rfl⟩

end Pool

end SyntaxForest.Schedule
