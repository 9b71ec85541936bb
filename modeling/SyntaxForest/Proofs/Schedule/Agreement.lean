import SyntaxForest.Proofs.Schedule.Settled

/-!
# Bounded and sequential runs agree

There are two ways in which it makes no difference whether jobs are run one after another or in a
window.

If no job fails and nothing says stop, the order in which jobs end is not seen in what a run
yields: each result stands at the place of its job. This holds for a window of any size.

A window with room for one job leaves no choice at all. The next job is begun when the one before
it has ended, so the state that the schedule looks at, and that the job finds, is the one that a
sequential run would hand on. Hence jobs may do here what they like: stop the run, fail, or read
what others have left behind. The proof follows a run step by step and keeps an eye on what a
sequential run would come to from there on (`Pool.ToCome`); no step changes it. The jobs that were
begun are part of this, because the sequential run is one that puts its jobs on record
(`recorded`).
-/

namespace SyntaxForest.Schedule

variable {σ ε ρ : Type}

/-- **Two runs yield the same**: the same results at the same places, hence the same results in
input order, and jobs left out in both or in none. -/
structure Run.Same (a b : Run ρ) : Prop where
  results : a.results.Perm b.results
  ordered : a.ordered = b.ordered
  cancelled : a.cancelled = b.cancelled

/-- Runs that have the values of all jobs yield the same. -/
theorem Run.Same.of_indexed {a b : Run ρ} {values : List ρ} (ha : a.results.Perm (indexed values))
    (hb : b.results.Perm (indexed values)) (hleft : a.leftOut = b.leftOut) : a.Same b :=
  ⟨ha.trans hb.symm, (ordered_eq ha).trans (ordered_eq hb).symm, by simp [Run.cancelled, hleft]⟩

/-! ## A record of the jobs that are run -/

/-- **A job that puts its place on record** when it is run. -/
def recordedJob (j : Nat × Job σ ε ρ) : Nat × Job (σ × List Nat) ε ρ :=
  (j.1, fun s => ((j.2 s.1).1, (j.2 s.1).2, s.2 ++ [j.1]))

/-- Jobs that put their places on record. -/
def recorded (jobs : List (Job σ ε ρ)) : List (Job (σ × List Nat) ε ρ) :=
  (placed jobs).map fun j => (recordedJob j).2

/-- **The places of the jobs that a sequential run runs**, in the order in which it does. -/
def order (stop : σ → Bool) (jobs : List (Job σ ε ρ)) (s : σ) : List Nat :=
  (sequential (fun s => stop s.1) (recorded jobs) (s, [])).2.2

theorem placed_recorded (jobs : List (Job σ ε ρ)) :
    placed (recorded jobs) = (placed jobs).map recordedJob := by
  refine List.ext_getElem? fun i => ?_
  simp only [recorded, placed, List.getElem?_map, List.getElem?_zipIdx, Option.map_map]
  cases jobs[i]? <;> simp [recordedJob]

/-- **Putting jobs on record** changes nothing else. -/
theorem sequentialFrom_recorded (stop : σ → Bool) (waiting : List (Nat × Job σ ε ρ))
    (results : List (Nat × ρ)) (s : σ) (log : List Nat) :
    (sequentialFrom (fun s => stop s.1) results (waiting.map recordedJob) (s, log)).1
        = (sequentialFrom stop results waiting s).1
      ∧ (sequentialFrom (fun s => stop s.1) results (waiting.map recordedJob) (s, log)).2.1
        = (sequentialFrom stop results waiting s).2 := by
  induction waiting generalizing results s log with
  | nil => exact ⟨rfl, rfl⟩
  | cons j rest ih =>
    obtain ⟨i, job⟩ := j
    rw [List.map_cons, recordedJob]
    unfold sequentialFrom
    dsimp only
    cases hstop : stop s with
    | true => simp
    | false =>
      rcases hjob : job s with ⟨_ | r, s'⟩
      · simp
      · simpa using ih (results ++ [(i, r)]) s' (log ++ [i])

/-- Noting the order in which jobs are begun changes nothing of a run in a row. -/
theorem sequential_recorded (stop : σ → Bool) (jobs : List (Job σ ε ρ)) (s : σ) :
    sequential (fun s => stop s.1) (recorded jobs) (s, [])
      = ((sequential stop jobs s).1, (sequential stop jobs s).2, order stop jobs s) := by
  obtain ⟨hanswer, hstate⟩ := sequentialFrom_recorded stop (placed jobs) [] s []
  rw [← placed_recorded] at hanswer hstate
  exact Prod.ext hanswer (Prod.ext hstate rfl)

/-! ## One job at a time -/

namespace Pool

variable {p : Pool σ ε ρ} {c c' : Config σ ε ρ} {event : Event ε ρ} {events : List (Event ε ρ)}
  {answer : Except ε (Run ρ) × σ × List Nat} {s : σ}

/-- The rest of a sequential run that puts its jobs on record and has run the first `next` ones. -/
def sequentialOn (p : Pool σ ε ρ) (next : Nat) (results : List (Nat × ρ)) (s : σ) :
    Except ε (Run ρ) × σ × List Nat :=
  sequentialFrom (fun s => p.stop s.1) results (((placed p.jobs).drop next).map recordedJob)
    (s, List.range next)

/-- The same, when the last of these jobs has come to its end. -/
def sequentialAfter (p : Pool σ ε ρ) (next : Nat) (results : List (Nat × ρ)) (i : Nat) :
    Except ε ρ × σ → Except ε (Run ρ) × σ × List Nat
  | (.error e, s) => (.error e, s, List.range next)
  | (.ok r, s) => p.sequentialOn next (results ++ [(i, r)]) s

/-- Nothing waits. -/
theorem sequentialOn_of_le {next : Nat} (h : p.jobs.length ≤ next) (results : List (Nat × ρ))
    (s : σ) : p.sequentialOn next results s
      = (.ok ⟨results, p.jobs.length - next⟩, s, List.range next) := by
  rw [sequentialOn, List.drop_eq_nil_of_le (by rwa [length_placed]), Nat.sub_eq_zero_of_le h]
  rfl

/-- The first job that waits. -/
theorem sequentialOn_of_lt {next : Nat} (h : next < p.jobs.length) (results : List (Nat × ρ))
    (s : σ) : p.sequentialOn next results s
      = if p.stop s then (.ok ⟨results, p.jobs.length - next⟩, s, List.range next)
        else p.sequentialAfter (next + 1) results next (p.jobs[next] s) := by
  have hdrop : (placed p.jobs).drop next
      = (next, p.jobs[next]) :: (placed p.jobs).drop (next + 1) := by
    rw [List.drop_eq_getElem_cons (by rwa [length_placed])]
    simp [placed]
  have hleft : p.jobs.length - (next + 1) + 1 = p.jobs.length - next := by omega
  unfold sequentialAfter sequentialOn
  rw [hdrop, List.map_cons, recordedJob, sequentialFrom, List.length_map, List.length_drop,
    length_placed, hleft]
  dsimp only
  rw [List.range_succ]
  rcases p.jobs[next] s with ⟨_ | r, s'⟩ <;> rfl

/-- What the last look has shown, where no job is in flight. -/
def Rests (p : Pool σ ε ρ) (c : Config σ ε ρ) : Phase ε → Prop
  | .head | .filling | .collecting [] => True
  | .admitted => c.next < p.jobs.length ∧ p.stop c.shared = false
  | .filled => c.next < p.jobs.length → p.stop c.shared = true
  | _ => False

/-- **What a sequential run would come to** from a moment on, if at most one job is in flight. -/
inductive ToCome (p : Pool σ ε ρ) (answer : Except ε (Run ρ) × σ × List Nat) :
    Config σ ε ρ → Prop
  | idle {c : Config σ ε ρ} (hrests : p.Rests c c.phase) (hnone : c.inFlight = [])
      (hrest : p.sequentialOn c.next c.results c.shared = answer) : ToCome p answer c
  | busy {c : Config σ ε ρ} {i job} (hphase : c.phase = .filling ∨ c.phase = .filled)
      (hone : c.inFlight = [(i, none)]) (hjob : p.jobs[i]? = some job)
      (hrest : p.sequentialAfter c.next c.results i (job c.shared) = answer) : ToCome p answer c
  | ended {c : Config σ ε ρ} {i outcome}
      (hphase : c.phase = .filling ∨ c.phase = .filled ∨ c.phase = .collecting [i])
      (hone : c.inFlight = [(i, some outcome)])
      (hrest : p.sequentialAfter c.next c.results i (outcome, c.shared) = answer) :
      ToCome p answer c
  | failed {c : Config σ ε ρ} {i fault}
      (hphase : c.phase = .closing i fault ∨ c.phase = .raised i fault) (hnone : c.inFlight = [])
      (hrest : (.error fault, c.shared, List.range c.next) = answer) : ToCome p answer c
  | returned {c : Config σ ε ρ} (hphase : c.phase = .returned) (hnone : c.inFlight = [])
      (hrest : (.ok (c.run p), c.shared, List.range c.next) = answer) : ToCome p answer c

/-- At the beginning all that a run in a row does is still to come. -/
theorem ToCome.initial (p : Pool σ ε ρ) (s : σ) :
    p.ToCome (sequential (fun s => p.stop s.1) (recorded p.jobs) (s, [])) (.initial s) := by
  refine .idle trivial rfl ?_
  rw [sequential, placed_recorded]
  rfl

theorem eq_of_append_cons_eq_singleton {α : Type} {before after : List α} {a b : α}
    (h : before ++ a :: after = [b]) : before = [] ∧ a = b ∧ after = [] := by
  cases before with
  | nil => simpa using h
  | cons x rest => simp at h

theorem ne_nil_of_eq_append_cons {α : Type} {l before after : List α} {a : α}
    (h : l = before ++ a :: after) : l ≠ [] := by
  simp [h]

/-- A list without repetitions of which `a` is the only member. -/
theorem eq_singleton_of_nodup {α : Type} {l : List α} {a : α} (hdistinct : l.Nodup)
    (hsome : l ≠ []) (hall : ∀ x ∈ l, x = a) : l = [a] := by
  obtain ⟨x, rest, rfl⟩ := List.exists_cons_of_ne_nil hsome
  obtain ⟨hx, hrest⟩ := List.forall_mem_cons.mp hall
  have hnone : rest = [] := List.eq_nil_iff_forall_not_mem.mpr fun y hy =>
    (List.nodup_cons.mp hdistinct).1 (hx.trans (hrest y hy).symm ▸ hy)
  rw [hx, hnone]

/-- **No job is in flight.** -/
theorem ToCome.step_idle (hlimit : p.limit = 1) (hclosed : ∀ s s', ¬ p.outside s s')
    (hrests : p.Rests c c.phase) (hnone : c.inFlight = [])
    (hrest : p.sequentialOn c.next c.results c.shared = answer) (hstep : p.Step c event c') :
    p.ToCome answer c' := by
  cases hstep with
  | enter _ _ => exact .idle trivial hnone hrest
  | leave _ hnext _ =>
    exact .returned rfl hnone ((sequentialOn_of_le (Nat.not_lt.mp hnext) ..).symm.trans hrest)
  | look _ hnext _ =>
    refine .idle ?_ hnone hrest
    cases hstop : p.stop c.shared with
    | true => exact fun _ => hstop
    | false => exact ⟨hnext, hstop⟩
  | begin hphase =>
    rw [hphase] at hrests
    obtain ⟨hnext, hstop⟩ := hrests
    refine .busy (.inl rfl) ?_ (List.getElem?_eq_getElem hnext) ?_
    · show c.inFlight ++ _ = _
      rw [hnone, List.nil_append]
    · rw [sequentialOn_of_lt hnext, hstop] at hrest
      exact hrest
  | full _ hfull =>
    refine .idle (fun hnext => absurd ⟨hnext, ?_⟩ hfull) hnone hrest
    simp [hnone, hlimit]
  | idle hphase _ =>
    rw [hphase] at hrests
    refine .returned rfl hnone ?_
    by_cases hnext : c.next < p.jobs.length
    · rw [sequentialOn_of_lt hnext, if_pos (hrests hnext)] at hrest
      exact hrest
    · exact (sequentialOn_of_le (Nat.not_lt.mp hnext) ..).symm.trans hrest
  | wake _ hsome _ hended =>
    obtain ⟨i, hi⟩ := List.exists_mem_of_ne_nil _ hsome
    obtain ⟨outcome, hin⟩ := hended i hi
    rw [hnone] at hin
    cases hin
  | next _ => exact .idle trivial hnone hrest
  | close hphase _ =>
    rw [hphase] at hrests
    exact hrests.elim
  | keep _ hflight => exact absurd hnone (ne_nil_of_eq_append_cons hflight)
  | fault _ hflight => exact absurd hnone (ne_nil_of_eq_append_cons hflight)
  | finish _ hflight => exact absurd hnone (ne_nil_of_eq_append_cons hflight)
  | outside hchange => exact absurd hchange (hclosed _ _)

/-- **The one job in flight** has not ended. -/
theorem ToCome.step_busy {i : Nat} {job : Job σ ε ρ} (hlimit : p.limit = 1)
    (hclosed : ∀ s s', ¬ p.outside s s') (hphase : c.phase = .filling ∨ c.phase = .filled)
    (hone : c.inFlight = [(i, none)]) (hjob : p.jobs[i]? = some job)
    (hrest : p.sequentialAfter c.next c.results i (job c.shared) = answer)
    (hstep : p.Step c event c') : p.ToCome answer c' := by
  cases hstep with
  | full _ _ => exact .busy (.inr rfl) hone hjob hrest
  | look _ _ hroom => simp [hone, hlimit] at hroom
  | idle _ hnone => simp [hone] at hnone
  | wake _ hsome _ hended =>
    obtain ⟨j, hj⟩ := List.exists_mem_of_ne_nil _ hsome
    obtain ⟨outcome, hin⟩ := hended j hj
    simp [hone] at hin
  | finish hjob' hflight =>
    obtain ⟨rfl, heq, rfl⟩ := eq_of_append_cons_eq_singleton (hflight.symm.trans hone)
    cases heq
    cases Option.some.inj (hjob.symm.trans hjob')
    exact .ended (hphase.imp_right .inl) rfl hrest
  | outside hchange => exact absurd hchange (hclosed _ _)
  | _ hother => simp [hother] at hphase

/-- **The one job in flight** has ended. -/
theorem ToCome.step_ended {i : Nat} {outcome : Except ε ρ} (hlimit : p.limit = 1)
    (hclosed : ∀ s s', ¬ p.outside s s')
    (hphase : c.phase = .filling ∨ c.phase = .filled ∨ c.phase = .collecting [i])
    (hone : c.inFlight = [(i, some outcome)])
    (hrest : p.sequentialAfter c.next c.results i (outcome, c.shared) = answer)
    (hstep : p.Step c event c') : p.ToCome answer c' := by
  cases hstep with
  | full _ _ => exact .ended (.inr (.inl rfl)) hone hrest
  | look _ _ hroom => simp [hone, hlimit] at hroom
  | idle _ hnone => simp [hone] at hnone
  | wake _ hsome hdistinct hended =>
    refine .ended (.inr (.inr (congrArg Phase.collecting ?_))) hone hrest
    have hall : ∀ j ∈ _, j = i := fun j hj => by
      obtain ⟨o, hin⟩ := hended j hj
      rw [hone, List.mem_singleton] at hin
      exact congrArg Prod.fst hin
    exact eq_singleton_of_nodup hdistinct hsome hall
  | keep hcollecting hflight =>
    obtain ⟨rfl, heq, rfl⟩ := eq_of_append_cons_eq_singleton (hflight.symm.trans hone)
    cases heq
    obtain rfl : _ = [] := by simpa [hcollecting] using hphase
    exact .idle trivial rfl hrest
  | fault hcollecting hflight =>
    obtain ⟨rfl, heq, rfl⟩ := eq_of_append_cons_eq_singleton (hflight.symm.trans hone)
    cases heq
    exact .failed (.inl rfl) rfl hrest
  | finish _ hflight =>
    obtain ⟨-, heq, -⟩ := eq_of_append_cons_eq_singleton (hflight.symm.trans hone)
    cases heq
  | outside hchange => exact absurd hchange (hclosed _ _)
  | _ hother => simp [hother] at hphase

/-- **No step changes what is to come.** -/
theorem ToCome.step (hlimit : p.limit = 1) (hclosed : ∀ s s', ¬ p.outside s s')
    (h : p.ToCome answer c) (hstep : p.Step c event c') : p.ToCome answer c' := by
  cases h with
  | idle hrests hnone hrest => exact step_idle hlimit hclosed hrests hnone hrest hstep
  | busy hphase hone hjob hrest => exact step_busy hlimit hclosed hphase hone hjob hrest hstep
  | ended hphase hone hrest => exact step_ended hlimit hclosed hphase hone hrest hstep
  | failed hphase hnone hrest =>
    cases hstep with
    | close hclosing _ =>
      obtain ⟨rfl, rfl⟩ : _ ∧ _ := by simpa [hclosing] using hphase
      exact .failed (.inr rfl) hnone hrest
    | finish _ hflight => exact absurd hnone (ne_nil_of_eq_append_cons hflight)
    | outside hchange => exact absurd hchange (hclosed _ _)
    | _ hother => simp [hother] at hphase
  | returned hphase hnone hrest =>
    cases hstep with
    | finish _ hflight => exact absurd hnone (ne_nil_of_eq_append_cons hflight)
    | outside hchange => exact absurd hchange (hclosed _ _)
    | _ hother => simp [hother] at hphase

/-- **A window with room for one job** leaves no choice: a run that is over answers what a
sequential run answers, and has begun the jobs that this one runs. -/
theorem Runs.eq_sequential (hlimit : p.limit = 1) (hclosed : ∀ s s', ¬ p.outside s s')
    (hruns : p.Runs (.initial s) events c) (hlast : c.phase.isLast = true) :
    c.answer? p = some ((sequential p.stop p.jobs s).1.mapError .job,
        (sequential p.stop p.jobs s).2)
      ∧ begunIn events = order p.stop p.jobs s := by
  have hbegun := (hruns.sound (hlimit ▸ Nat.one_pos)).begun
  have hcome := hruns.induction (motive := fun _ c => p.ToCome _ c)
    (fun _ _ _ _ hcome hstep => hcome.step hlimit hclosed hstep) (ToCome.initial p s)
  rw [sequential_recorded] at hcome
  cases hcome with
  | failed hphase _ hrest =>
    obtain ⟨hfault, hstate, horder⟩ := by simpa using hrest
    rcases hphase with hphase | hphase
    · rw [hphase] at hlast
      cases hlast
    · rw [Config.answer?, hphase, ← hfault, ← hstate, hbegun, horder]
      exact ⟨rfl, rfl⟩
  | returned hphase _ hrest =>
    obtain ⟨hrun, hstate, horder⟩ := by simpa using hrest
    rw [Config.answer?, hphase, ← hrun, ← hstate, hbegun, horder]
    exact ⟨rfl, rfl⟩
  | idle hrests _ _ => cases hphase : c.phase <;> simp_all [Phase.isLast, Rests]
  | busy hphase _ _ _ => rcases hphase with hphase | hphase <;> simp [hphase, Phase.isLast] at hlast
  | ended hphase _ _ =>
    rcases hphase with hphase | hphase | hphase <;> simp [hphase, Phase.isLast] at hlast

end Pool

/-! ## Both agreements -/

/-- **Bounded and sequential runs agree.** Where each job yields its own value, nothing fails and
nothing says stop, a bounded run returns, in whatever order jobs end and whatever the size of its
window, and yields the same as a sequential run. Where there is room for one job, a bounded run of
any jobs answers what a sequential run answers, be it a return or a fault, leaves the same state,
and has begun the same jobs in the same order. -/
theorem bounded_agrees :
    (∀ (p : Pool σ ε ρ) (calm : σ → Prop) (values : List ρ) (s : σ), 0 < p.limit →
      p.Undisturbed calm → List.Forall₂ (Job.Yields calm) p.jobs values → calm s →
      ∃ run s', sequential p.stop p.jobs s = (.ok run, s')
        ∧ (∀ events c, p.Runs (.initial s) events c → c.phase.isLast = true →
          ∃ run' s'', c.answer? p = some (.ok run', s'') ∧ run'.Same run)
        ∧ ∀ completion, ∃ run' s'',
          bounded p.limit p.stop completion p.jobs s = (.ok run', s'') ∧ run'.Same run)
    ∧ ∀ (stop : σ → Bool) (jobs : List (Job σ ε ρ)) (s : σ),
      (∀ events c, (Pool.closed jobs 1 stop).Runs (.initial s) events c →
        c.phase.isLast = true →
        c.answer? (.closed jobs 1 stop) = some ((sequential stop jobs s).1.mapError .job,
            (sequential stop jobs s).2)
          ∧ begunIn events = order stop jobs s)
      ∧ ∀ completion, bounded 1 stop completion jobs s
          = ((sequential stop jobs s).1.mapError .job, (sequential stop jobs s).2) := by
  refine ⟨fun p calm values s hlimit hp hjobs hs => ?_, fun stop jobs s => ?_⟩
  · obtain ⟨s', hsequential, -⟩ := sequential_of_yields hp.goes hjobs hs
    refine ⟨_, s', hsequential, fun events c hruns hlast => ?_, fun completion => ?_⟩
    · obtain ⟨hanswer, hresults, hleft, -⟩ := hruns.of_yields hlimit hp hjobs hs hlast
      exact ⟨_, _, hanswer, .of_indexed hresults (.refl _) hleft⟩
    · have hroom : (1 : Int) ≤ p.limit := by omega
      obtain ⟨run', s'', hrun, hresults, hleft, -⟩ :=
        bounded_of_yields hroom completion hp.goes hjobs hs
      exact ⟨run', s'', hrun, .of_indexed hresults (.refl _) hleft⟩
  · have hclosed : ∀ s s', ¬ (Pool.closed jobs 1 stop).outside s s' := fun _ _ => id
    refine ⟨fun events c hruns hlast => hruns.eq_sequential rfl hclosed hlast, fun completion => ?_⟩
    obtain ⟨events, c, hruns, hanswer⟩ :=
      exists_runs_bounded (p := .closed jobs 1 stop) Nat.one_pos completion s
    have hsequential :=
      (hruns.eq_sequential rfl hclosed (Config.isLast_of_answer? hanswer)).1
    exact Option.some.inj (hanswer.symm.trans hsequential)

/-- Two jobs that count those that have ended, and others that count beside them. -/
def counting : Pool (Nat × Bool) String Nat where
  jobs := [fun s => (.ok 10, s.1 + 1, s.2), fun s => (.ok 11, s.1 + 1, s.2)]
  limit := 2
  stop := Prod.snd
  outside s s' := s'.2 = s.2

/-- A job that stops the run, between one that has a value and one that would fail. -/
def halting : List (Job (Nat × Bool) String Nat) :=
  [fun s => (.ok 10, s), fun s => (.ok 11, s.1, true), fun s => (.error "late", s)]

/-- Two jobs at a time yield in any order what they yield one after another; and one at a time,
the job that would fail is left out because the one before it has stopped the run. -/
theorem bounded_agrees_counting :
    (∃ run s', sequential Prod.snd counting.jobs (0, false) = (.ok run, s')
      ∧ (∀ events c, counting.Runs (.initial (0, false)) events c → c.phase.isLast = true →
        ∃ run' s'', c.answer? counting = some (.ok run', s'') ∧ run'.Same run)
      ∧ ∀ completion, ∃ run' s'',
        bounded 2 Prod.snd completion counting.jobs (0, false) = (.ok run', s'')
          ∧ run'.Same run)
    ∧ ∀ events c, (Pool.closed halting 1 Prod.snd).Runs (.initial (0, false)) events c →
        c.phase.isLast = true →
        c.answer? (.closed halting 1 Prod.snd)
            = some (.ok ⟨[(0, 10), (1, 11)], 1⟩, 0, true)
          ∧ begunIn events = [0, 1] := by
  have hcalm : counting.Undisturbed fun s => s.2 = false :=
    ⟨fun _ hs => hs, fun _ _ hchange hs => hchange.trans hs⟩
  have hjobs : List.Forall₂ (Job.Yields fun s => s.2 = false) counting.jobs [10, 11] :=
    .cons (fun _ hs => ⟨_, rfl, hs⟩) (.cons (fun _ hs => ⟨_, rfl, hs⟩) .nil)
  exact ⟨bounded_agrees.1 counting _ [10, 11] (0, false) Nat.two_pos hcalm hjobs rfl,
    (bounded_agrees.2 Prod.snd halting (0, false)).1⟩

end SyntaxForest.Schedule
