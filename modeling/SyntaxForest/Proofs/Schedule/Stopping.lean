import SyntaxForest.Proofs.Schedule.Settled

/-!
# Runs that are stopped

A run may be stopped at any moment: the state that jobs share changes beside the jobs, and the
schedule sees it when it looks. If each job comes to one outcome, whatever state it finds, then
nothing of this is seen in a run that returns but how many jobs it has begun: it has the values
of exactly the first ones (`Run.OfFirst`), one after another (`Sequence.ofFirst`) or bounded
(`Pool.Runs.ofFirst`).

`Sequence` is the sequential run with changes from outside between its steps, as `Pool.Runs` is
the bounded one.
-/

namespace SyntaxForest

variable {σ ε ρ : Type}

/-- **A job comes to one outcome**, whatever state it finds. -/
def Job.Fixed (job : Job σ ε ρ) (outcome : Except ε ρ) : Prop := ∀ s, (job s).1 = outcome

namespace Schedule

variable {stop : σ → Bool} {outside : σ → σ → Prop} {jobs : List (Job σ ε ρ)}
  {outcomes : List (Except ε ρ)} {values : List ρ} {run : Run ρ} {s s' : σ}

/-! ## The values of the first jobs -/

/-- **A run of the first jobs** has their values, and leaves all others out. -/
structure Run.OfFirst (outcomes : List (Except ε ρ)) (values : List ρ) (run : Run ρ) : Prop where
  own : values.map Except.ok = outcomes.take values.length
  results : run.results.Perm (indexed values)
  leftOut : run.leftOut = outcomes.length - values.length

namespace Run.OfFirst

/-- A run is cancelled if jobs are left out. -/
theorem cancelled_iff (h : run.OfFirst outcomes values) :
    run.cancelled = true ↔ values.length < outcomes.length := by
  rw [Run.cancelled, h.leftOut, decide_eq_true_iff]
  exact Nat.sub_pos_iff_lt

end Run.OfFirst

/-! ## One after another -/

/-- **A sequential run, step by step.** From the jobs that wait, the results so far and the
shared state it comes to an end; the state may change from outside before every look at it. -/
inductive Sequence (stop : σ → Bool) (outside : σ → σ → Prop) :
    List (Nat × Job σ ε ρ) → List (Nat × ρ) → σ → Except ε (Run ρ) × σ → Prop
  | done {results s} : Sequence stop outside [] results s (.ok ⟨results, 0⟩, s)
  | halt {j rest results s} (hstop : stop s = true) :
      Sequence stop outside (j :: rest) results s (.ok ⟨results, rest.length + 1⟩, s)
  | keep {i job rest results s r s' answer} (hgoes : stop s = false) (hjob : job s = (.ok r, s'))
      (hrest : Sequence stop outside rest (results ++ [(i, r)]) s' answer) :
      Sequence stop outside ((i, job) :: rest) results s answer
  | fault {i job rest results s e s'} (hgoes : stop s = false) (hjob : job s = (.error e, s')) :
      Sequence stop outside ((i, job) :: rest) results s (.error e, s')
  | outside {waiting results s s' answer} (hchange : outside s s')
      (hrest : Sequence stop outside waiting results s' answer) :
      Sequence stop outside waiting results s answer

/-- **The sequential schedule** is such a run without changes from outside. -/
theorem sequence_sequentialFrom (stop : σ → Bool) (outside : σ → σ → Prop)
    (waiting : List (Nat × Job σ ε ρ)) (results : List (Nat × ρ)) (s : σ) :
    Sequence stop outside waiting results s (sequentialFrom stop results waiting s) := by
  induction waiting generalizing results s with
  | nil => exact .done
  | cons j rest ih =>
    obtain ⟨i, job⟩ := j
    rw [sequentialFrom]
    split
    · next hstop => exact .halt hstop
    · next hgoes =>
      rw [Bool.not_eq_true] at hgoes
      split
      · next e s' hjob => exact .fault hgoes hjob
      · next r s' hjob => exact .keep hgoes hjob (ih _ s')

/-- **A run that goes on** from the results so far: it enters the values of the first jobs that
wait behind them, from the place `k` on, and leaves all others out. -/
structure Run.GoesOn (results : List (Nat × ρ)) (k : Nat) (outcomes : List (Except ε ρ))
    (values : List ρ) (run : Run ρ) : Prop where
  own : values.map Except.ok = outcomes.take values.length
  results_eq : run.results = results ++ (values.zipIdx k).map Prod.swap
  leftOut : run.leftOut = outcomes.length - values.length

namespace Run.GoesOn

variable {results : List (Nat × ρ)} {k : Nat}

/-- A run that stops leaves out all jobs to come. -/
theorem stopped (outcomes : List (Except ε ρ)) :
    (⟨results, outcomes.length⟩ : Run ρ).GoesOn results k outcomes [] :=
  ⟨rfl, (List.append_nil _).symm, rfl⟩

/-- A run that goes on behind the value of a job goes on from it. -/
theorem cons {r : ρ} (h : run.GoesOn (results ++ [(k, r)]) (k + 1) outcomes values) :
    run.GoesOn results k (.ok r :: outcomes) (r :: values) where
  own := by rw [List.map_cons, List.length_cons, List.take_succ_cons, h.own]
  results_eq := by
    rw [h.results_eq, List.append_assoc]
    rfl
  leftOut := by rw [h.leftOut, List.length_cons, List.length_cons, Nat.add_sub_add_right]

end Run.GoesOn

/-- A sequential run that returns goes on with the jobs that wait, whenever it is stopped. -/
theorem Sequence.goesOn {waiting : List (Nat × Job σ ε ρ)} {results : List (Nat × ρ)} {k : Nat}
    {answer : Except ε (Run ρ) × σ} (h : Sequence stop outside waiting results s answer)
    (hwaiting : waiting = (jobs.zipIdx k).map fun (job, i) => (i, job))
    (hjobs : List.Forall₂ Job.Fixed jobs outcomes) (hanswer : answer = (.ok run, s')) :
    ∃ values, run.GoesOn results k outcomes values := by
  induction h generalizing jobs outcomes k with
  | done =>
    cases hanswer
    cases hjobs with
    | nil => exact ⟨[], .stopped []⟩
    | cons _ _ => cases hwaiting
  | @halt j rest results s hstop =>
    cases hanswer
    have hlength : rest.length + 1 = outcomes.length := by
      rw [← List.length_cons (a := j), hwaiting, List.length_map, List.length_zipIdx,
        hjobs.length_eq]
    exact ⟨[], hlength ▸ .stopped outcomes⟩
  | @keep i job rest results s r s₁ answer hgoes hjob _ ih =>
    cases hjobs with
    | nil => cases hwaiting
    | @cons _ outcome jobs outcomes hfixed hjobs =>
      rw [List.zipIdx_cons, List.map_cons, List.cons.injEq, Prod.mk.injEq] at hwaiting
      obtain ⟨⟨rfl, rfl⟩, rfl⟩ := hwaiting
      obtain ⟨values, hrest⟩ := ih rfl hjobs hanswer
      have hvalue : outcome = Except.ok r := by
        rw [← hfixed s, hjob]
      exact ⟨r :: values, hvalue ▸ hrest.cons⟩
  | fault hgoes hjob => cases hanswer
  | outside hchange _ ih => exact ih hwaiting hjobs hanswer

/-- **A sequential run that returns** has the values of the first jobs, whenever it is
stopped. -/
theorem Sequence.ofFirst (h : Sequence stop outside (placed jobs) [] s (.ok run, s'))
    (hjobs : List.Forall₂ Job.Fixed jobs outcomes) : ∃ values, run.OfFirst outcomes values := by
  obtain ⟨values, hrun⟩ := h.goesOn (k := 0) rfl hjobs rfl
  exact ⟨values, hrun.own, .of_eq hrun.results_eq, hrun.leftOut⟩

/-- Jobs that all have values are all run to their ends, or the run is stopped. -/
theorem exists_sequential (hjobs : List.Forall₂ Job.Fixed jobs (values.map Except.ok)) (s : σ) :
    ∃ run s', sequential stop jobs s = (.ok run, s') := by
  suffices hgo : ∀ k (results : List (Nat × ρ)) s, ∃ run s', sequentialFrom stop results
      ((jobs.zipIdx k).map fun (job, i) => (i, job)) s = (.ok run, s') from hgo 0 [] s
  generalize houtcomes : values.map Except.ok = outcomes at hjobs
  induction hjobs generalizing values with
  | nil => exact fun k results s => ⟨_, _, rfl⟩
  | @cons job outcome jobs outcomes hfixed _ ih =>
    intro k results s
    obtain ⟨r, values, rfl, hr, hrest⟩ := List.map_eq_cons_iff.mp houtcomes
    rw [List.zipIdx_cons, List.map_cons, sequentialFrom]
    split
    · exact ⟨_, _, rfl⟩
    · split
      · next e s' hjob =>
        have := hfixed s
        rw [hjob, ← hr] at this
        cases this
      · exact ih hrest _ _ _

/-! ## Bounded -/

namespace Pool

variable {p : Pool σ ε ρ} {events : List (Event ε ρ)} {c : Config σ ε ρ}

/-- A job that ends has its outcome. -/
theorem Runs.ended_eq (h : p.Runs (.initial s) events c)
    (hjobs : List.Forall₂ Job.Fixed p.jobs outcomes) {i : Nat} {outcome : Except ε ρ}
    (hended : .ended i outcome ∈ events) : outcomes[i]? = some outcome := by
  obtain ⟨job, s', hjob, rfl⟩ := h.ends hended
  obtain ⟨outcome, houtcome, hfixed⟩ := exists_of_forall₂ hjobs hjob
  rw [houtcome, hfixed s']

/-- **A bounded run that returns** has the values of the first jobs, whichever jobs end first
and whenever it is stopped. -/
theorem Runs.ofFirst (hlimit : 0 < p.limit) (h : p.Runs (.initial s) events c)
    (hphase : c.phase = .returned) (hjobs : List.Forall₂ Job.Fixed p.jobs outcomes) :
    ∃ values, (c.run p).OfFirst outcomes values := by
  have hsound := h.sound hlimit
  obtain ⟨values, hreturned⟩ := hsound.returned hphase
  have hlength : values.length ≤ outcomes.length :=
    hjobs.length_eq ▸ hreturned.length ▸ hsound.next_le
  refine ⟨values, List.ext_getElem? fun i => ?_, hreturned.results, ?_⟩
  · rw [List.getElem?_map, List.getElem?_take]
    cases hi : values[i]? with
    | none =>
      rw [List.getElem?_eq_none_iff] at hi
      rw [if_neg (Nat.not_lt.mpr hi)]
      rfl
    | some r =>
      rw [if_pos (List.getElem?_eq_some_iff.mp hi).1, h.ended_eq hjobs (hreturned.own i r hi)]
      rfl
  · show p.jobs.length - c.next = _
    rw [hreturned.length, hjobs.length_eq]

/-- **The bounded schedule**, where all jobs have values, is such a run and returns. -/
theorem exists_bounded (hlimit : 0 < p.limit)
    (hjobs : List.Forall₂ Job.Fixed p.jobs (values.map Except.ok)) (completion : Completion)
    (s : σ) :
    ∃ events c, p.Runs (.initial s) events c ∧ c.phase = .returned
      ∧ bounded p.limit p.stop completion p.jobs s = (.ok (c.run p), c.shared) := by
  obtain ⟨events, c, hruns, hanswer⟩ := exists_runs_bounded hlimit completion s
  cases hphase : c.phase with
  | returned =>
    rw [Config.answer?, hphase] at hanswer
    exact ⟨events, c, hruns, hphase, (Option.some.inj hanswer).symm⟩
  | raised i fault =>
    have hended := hruns.ended_eq hjobs ((hruns.sound hlimit).lost (.inr hphase))
    rw [List.getElem?_map, Option.map_eq_some_iff] at hended
    obtain ⟨_, -, hvalue⟩ := hended
    cases hvalue
  | _ => rw [Config.answer?, hphase] at hanswer; cases hanswer

end Pool

end Schedule

end SyntaxForest
