import Mathlib.Data.List.Forall2
import SyntaxForest.Proofs.Schedule.Safety

/-!
# Jobs that yield the same at any time

A job may do much to the state it shares with others, as long as that does not change
what any of them yields. If every job has one value, in each state that can come about,
and no such state says stop, then a run has exactly these values, one after another
(`sequential_of_yields`) or bounded, whichever job ends first (`bounded_of_yields`).
-/

namespace SyntaxForest

variable {σ ε ρ : Type}

/-- **A job yields a value**: in every calm state, and leaves the state calm. -/
def Job.Yields (calm : σ → Prop) (job : Job σ ε ρ) (r : ρ) : Prop :=
  ∀ s, calm s → ∃ s', job s = (.ok r, s') ∧ calm s'

namespace Schedule

variable {calm : σ → Prop} {stop : σ → Bool} {jobs : List (Job σ ε ρ)} {values : List ρ} {s : σ}

/-! ## One after another -/

theorem sequentialFrom_of_yields (hgoes : ∀ s, calm s → stop s = false)
    (h : List.Forall₂ (Job.Yields calm) jobs values) (hs : calm s) (k : Nat)
    (results : List (Nat × ρ)) :
    ∃ s', sequentialFrom stop results ((jobs.zipIdx k).map fun (job, i) => (i, job)) s
        = (.ok ⟨results ++ (values.zipIdx k).map Prod.swap, 0⟩, s') ∧ calm s' := by
  induction h generalizing k results s with
  | nil =>
    refine ⟨s, ?_, hs⟩
    show (Except.ok (Run.mk results 0), s) = (Except.ok (Run.mk (results ++ []) 0), s)
    rw [List.append_nil]
  | @cons job r jobs values hjob _ ih =>
    obtain ⟨s₁, hrun, hs₁⟩ := hjob s hs
    obtain ⟨s₂, hrest, hs₂⟩ := ih hs₁ (k + 1) (results ++ [(k, r)])
    refine ⟨s₂, ?_, hs₂⟩
    rw [List.zipIdx_cons, List.zipIdx_cons, List.map_cons, List.map_cons, sequentialFrom,
      if_neg (by rw [hgoes s hs]; exact Bool.false_ne_true), hrun]
    refine hrest.trans ?_
    rw [List.append_assoc]
    rfl

/-- **A sequential run** has the values of its jobs. -/
theorem sequential_of_yields (hgoes : ∀ s, calm s → stop s = false)
    (h : List.Forall₂ (Job.Yields calm) jobs values) (hs : calm s) :
    ∃ s', sequential stop jobs s = (.ok ⟨indexed values, 0⟩, s') ∧ calm s' :=
  sequentialFrom_of_yields hgoes h hs 0 []

/-! ## Bounded -/

/-- What is so far known of a run of jobs that yield values. -/
structure Unstopped (calm : σ → Prop) (values : List ρ) (events : List (Event ε ρ))
    (c : Config σ ε ρ) : Prop where
  calm : calm c.shared
  goes : .looked true ∉ events
  ends : ∀ i outcome, .ended i outcome ∈ events → ∃ r, values[i]? = some r ∧ outcome = .ok r

/-- **Nothing disturbs the jobs of a pool**: no calm state says stop, and what happens beside the
jobs leaves the state calm. -/
structure Pool.Undisturbed (p : Pool σ ε ρ) (calm : σ → Prop) : Prop where
  goes : ∀ s, calm s → p.stop s = false
  outside : ∀ s s', p.outside s s' → calm s → calm s'

/-- A moment that answers is the last one. -/
theorem Config.isLast_of_answer? {p : Pool σ ε ρ} {c : Config σ ε ρ}
    {answer : Except (Fault ε) (Run ρ) × σ} (h : c.answer? p = some answer) :
    c.phase.isLast = true := by
  unfold answer? at h
  cases hphase : c.phase <;> simp_all [Phase.isLast]

/-- The pool of jobs with nothing beside them. -/
def Pool.closed (jobs : List (Job σ ε ρ)) (limit : Nat) (stop : σ → Bool) : Pool σ ε ρ :=
  ⟨jobs, limit, stop, fun _ _ => False⟩

theorem exists_of_forall₂ {α β : Type} {R : α → β → Prop} {as : List α} {bs : List β} {i : Nat}
    {a : α} (h : List.Forall₂ R as bs) (ha : as[i]? = some a) : ∃ b, bs[i]? = some b ∧ R a b := by
  induction h generalizing i with
  | nil => cases ha
  | cons hab _ ih =>
    cases i with
    | zero =>
      cases ha
      exact ⟨_, rfl, hab⟩
    | succ i => exact ih ha

/-- **Each step** of such a run leaves it so. -/
theorem Unstopped.step {p : Pool σ ε ρ} {events : List (Event ε ρ)} {event : Event ε ρ}
    {c c' : Config σ ε ρ} (hp : p.Undisturbed calm)
    (h : List.Forall₂ (Job.Yields calm) p.jobs values) (hu : Unstopped calm values events c)
    (hstep : p.Step c event c') : Unstopped calm values (events ++ [event]) c' := by
  -- a step that neither looks at the state nor ends a job
  have hquiet : event ≠ .looked true → (∀ i outcome, event ≠ .ended i outcome) → calm c'.shared →
      Unstopped calm values (events ++ [event]) c' := by
    refine fun hlook hend hcalm => ⟨hcalm, ?_, fun i outcome hin => ?_⟩
    · rw [List.mem_append, List.mem_singleton, not_or]
      exact ⟨hu.goes, hlook.symm⟩
    · rw [List.mem_append, List.mem_singleton] at hin
      exact hu.ends i outcome (hin.resolve_right (hend i outcome).symm)
  cases hstep with
  | look _ _ _ =>
    refine hquiet ?_ nofun hu.calm
    rw [hp.goes _ hu.calm]
    exact nofun
  | finish hjob hflight =>
    obtain ⟨r, hr, hyields⟩ := exists_of_forall₂ h hjob
    obtain ⟨s', hrun, hcalm⟩ := hyields _ hu.calm
    rw [hrun]
    refine ⟨hcalm, ?_, fun i outcome hin => ?_⟩
    · rw [List.mem_append, List.mem_singleton, not_or]
      exact ⟨hu.goes, nofun⟩
    · rw [List.mem_append, List.mem_singleton] at hin
      rcases hin with hin | hin
      · exact hu.ends i outcome hin
      · cases hin
        exact ⟨r, hr, rfl⟩
  | outside hchange => exact hquiet nofun nofun (hp.outside _ _ hchange hu.calm)
  | _ => exact hquiet nofun nofun hu.calm

/-- **A bounded run** of such jobs, in whatever order they end, returns with all their values. -/
theorem Pool.Runs.of_yields {p : Pool σ ε ρ} {events : List (Event ε ρ)} {c : Config σ ε ρ}
    (hlimit : 0 < p.limit) (hp : p.Undisturbed calm)
    (h : List.Forall₂ (Job.Yields calm) p.jobs values) (hs : calm s)
    (hruns : p.Runs (.initial s) events c) (hlast : c.phase.isLast = true) :
    c.answer? p = some (.ok (c.run p), c.shared)
      ∧ c.results.Perm (indexed values) ∧ (c.run p).leftOut = 0 ∧ calm c.shared := by
  have hsound := hruns.sound hlimit
  have hu : Unstopped calm values events c :=
    hruns.induction (fun _ _ _ _ hu hstep => hu.step hp h hstep)
      ⟨hs, List.not_mem_nil, fun _ _ hin => nomatch hin⟩
  cases hphase : c.phase with
  | returned =>
    obtain ⟨values', hreturned⟩ := hsound.returned hphase
    have hlength : values'.length = p.jobs.length := by
      refine Nat.le_antisymm (hreturned.length ▸ hsound.next_le) (Nat.not_lt.mp fun hlt => ?_)
      exact hu.goes (hreturned.stopped hlt)
    have hvalues : values' = values := by
      refine List.ext_getElem? fun i => ?_
      cases hi : values'[i]? with
      | none =>
        rw [eq_comm, List.getElem?_eq_none_iff, ← h.length_eq, ← hlength]
        exact List.getElem?_eq_none_iff.mp hi
      | some r =>
        obtain ⟨r', hr', heq⟩ := hu.ends i _ (hreturned.own i r hi)
        cases heq
        exact hr'.symm
    refine ⟨?_, hvalues ▸ hreturned.results, ?_, hu.calm⟩
    · rw [Config.answer?, hphase]
    · show p.jobs.length - c.next = 0
      rw [← hreturned.length, hlength, Nat.sub_self]
  | raised i fault =>
    obtain ⟨r, -, heq⟩ := hu.ends i _ (hsound.lost (.inr hphase))
    cases heq
  | _ => rw [hphase] at hlast; cases hlast

/-- **A bounded run** has the values of its jobs, whichever jobs end first. -/
theorem bounded_of_yields {limit : Int} (hlimit : 1 ≤ limit) (completion : Completion)
    (hgoes : ∀ s, calm s → stop s = false) (h : List.Forall₂ (Job.Yields calm) jobs values)
    (hs : calm s) :
    ∃ run s', bounded limit stop completion jobs s = (.ok run, s')
      ∧ run.results.Perm (indexed values) ∧ run.leftOut = 0 ∧ calm s' := by
  obtain ⟨limit, rfl⟩ : ∃ n : Nat, limit = n := Int.eq_ofNat_of_zero_le (by omega)
  have hroom : 0 < limit := by omega
  have hclosed : (Pool.closed jobs limit stop).Undisturbed calm :=
    ⟨hgoes, fun _ _ hchange => False.elim hchange⟩
  obtain ⟨events, c, hruns, hanswer⟩ :=
    exists_runs_bounded (p := .closed jobs limit stop) hroom completion s
  obtain ⟨hreturns, hresults, hleft, hcalm⟩ :=
    hruns.of_yields hroom hclosed h hs (Config.isLast_of_answer? hanswer)
  exact ⟨_, _, Option.some.inj (hanswer.symm.trans hreturns), hresults, hleft, hcalm⟩

end Schedule

end SyntaxForest
