import Mathlib.Data.List.Infix
import SyntaxForest.Proofs.Schedule.Interleaving

/-!
# The schedule is one of the step-by-step runs

`Window.run` keeps the jobs in flight unevaluated and runs one when it is chosen to end.
Each of its turns is a stretch of steps (`Pool.Runs`): the window is filled, the chosen
job ends, its end is noticed and its outcome collected. So whatever holds of every
step-by-step run holds of `bounded`, for every choice of the job that ends next
(`exists_runs_bounded`).
-/

namespace SyntaxForest.Schedule

variable {σ ε ρ : Type} {p : Pool σ ε ρ} {w : Window σ ε ρ} {s : σ}

/-! ## Windows as moments of a run -/

/-- **A window seen as a moment of a run**, with no job ended. -/
def Window.config (p : Pool σ ε ρ) (phase : Phase ε) (w : Window σ ε ρ) (s : σ) : Config σ ε ρ :=
  ⟨phase, p.jobs.length - w.waiting.length, w.begun.map fun j => (j.1, none), w.results, s⟩

/-- The jobs of a window are those of the pool: those that wait are the last ones. -/
structure Window.Of (p : Pool σ ε ρ) (w : Window σ ε ρ) : Prop where
  waiting : w.waiting <:+ placed p.jobs
  begun : ∀ j ∈ w.begun, p.jobs[j.1]? = some j.2

theorem mem_placed {jobs : List (Job σ ε ρ)} {i : Nat} {job : Job σ ε ρ} :
    (i, job) ∈ placed jobs ↔ jobs[i]? = some job := by
  rw [placed, List.mem_map]
  constructor
  · rintro ⟨⟨v, j⟩, hmem, heq⟩
    obtain ⟨rfl, rfl⟩ := Prod.mk.inj heq
    exact List.mem_zipIdx_iff_getElem?.mp hmem
  · exact fun h => ⟨(job, i), List.mem_zipIdx_iff_getElem?.mpr h, rfl⟩

theorem length_placed (jobs : List (Job σ ε ρ)) : (placed jobs).length = jobs.length := by
  rw [placed, List.length_map, List.length_zipIdx]

/-- At the beginning every job of the pool is waiting. -/
theorem Window.Of.initial (p : Pool σ ε ρ) : (Window.initial p.jobs).Of p :=
  ⟨List.suffix_refl _, fun _ hj => nomatch hj⟩

theorem Window.Of.length_le (h : w.Of p) : w.waiting.length ≤ p.jobs.length :=
  length_placed p.jobs ▸ h.waiting.length_le

/-- The first waiting job is the next. -/
theorem Window.Of.first {j : Nat × Job σ ε ρ} {rest : List (Nat × Job σ ε ρ)}
    (h : w.Of p) (hwaiting : w.waiting = j :: rest) :
    j.1 = p.jobs.length - w.waiting.length ∧ p.jobs[j.1]? = some j.2 := by
  obtain ⟨i, job⟩ := j
  obtain ⟨front, hfront⟩ := h.waiting
  rw [hwaiting] at hfront
  refine ⟨?_, mem_placed.mp (hfront ▸ by simp)⟩
  have hlength : front.length + (rest.length + 1) = p.jobs.length := by
    rw [← length_placed p.jobs, ← hfront, List.length_append, List.length_cons]
  have hget : (placed p.jobs)[front.length]? = some (i, job) := by
    rw [← hfront, List.getElem?_append_right (Nat.le_refl _), Nat.sub_self]
    rfl
  rw [placed, List.getElem?_map, Option.map_eq_some_iff] at hget
  obtain ⟨⟨v, j⟩, hj, heq⟩ := hget
  obtain ⟨rfl, -⟩ := Prod.mk.inj heq
  have hj := (List.getElem?_zipIdx ..).symm.trans hj
  rw [Option.map_eq_some_iff] at hj
  obtain ⟨_, -, hj⟩ := hj
  have := (Prod.mk.inj hj).2
  rw [hwaiting, List.length_cons]
  omega

/-! ## Filling the window -/

theorem Window.fill_of_full {limit : Nat} (h : limit ≤ w.begun.length) : w.fill limit = w := by
  have hroom : limit - w.begun.length = 0 := Nat.sub_eq_zero_of_le h
  unfold fill
  rw [hroom]
  simp

theorem Window.fill_of_none {limit : Nat} (h : w.waiting = []) : w.fill limit = w := by
  obtain ⟨waiting, begun, results⟩ := w
  subst h
  simp [fill]

/-- The window with its first waiting job begun. -/
theorem Window.fill_cons {limit : Nat} {j : Nat × Job σ ε ρ} {rest : List (Nat × Job σ ε ρ)}
    (hwaiting : w.waiting = j :: rest) (hroom : w.begun.length < limit) :
    w.fill limit = Window.fill limit ⟨rest, w.begun ++ [j], w.results⟩ := by
  obtain ⟨room, hroom⟩ : ∃ room, limit - w.begun.length = room + 1 :=
    ⟨limit - w.begun.length - 1, by omega⟩
  have hnext : limit - (w.begun ++ [j]).length = room := by
    rw [List.length_append, List.length_singleton]
    omega
  unfold fill
  dsimp only
  rw [hwaiting, hroom, hnext, List.drop_succ_cons, List.take_succ_cons, List.append_assoc,
    List.singleton_append]

section

variable {j : Nat × Job σ ε ρ} {rest : List (Nat × Job σ ε ρ)}

/-- The window is left as it is when nothing waits or there is no room. -/
theorem Window.step_full (h : w.waiting = [] ∨ p.limit ≤ w.begun.length) :
    p.Step (w.config p .filling s) .moved (w.config p .filled s) := by
  refine .full rfl ?_
  rintro ⟨hnext, hroom⟩
  simp only [config, List.length_map] at hnext hroom
  rcases h with h | h
  · rw [h] at hnext
    exact Nat.lt_irrefl _ hnext
  · omega

/-- The state is looked at when something waits and there is room. -/
theorem Window.step_look {stopped : Bool} (hof : w.Of p) (hwaiting : w.waiting = j :: rest)
    (hroom : w.begun.length < p.limit) (hstop : p.stop s = stopped) :
    p.Step (w.config p .filling s) (.looked stopped)
      (w.config p (if stopped then .filled else .admitted) s) := by
  subst hstop
  have hlength := hof.length_le
  rw [hwaiting, List.length_cons] at hlength
  refine .look rfl ?_ ?_
  · show p.jobs.length - w.waiting.length < p.jobs.length
    rw [hwaiting, List.length_cons]
    omega
  · show (w.begun.map _).length < p.limit
    rwa [List.length_map]

/-- The first waiting job is begun. -/
theorem Window.step_begin (hof : w.Of p) (hwaiting : w.waiting = j :: rest) :
    p.Step (w.config p .admitted s) (.begun (p.jobs.length - w.waiting.length))
      (Window.config p .filling ⟨rest, w.begun ++ [j], w.results⟩ s) := by
  have hlength := hof.length_le
  have hplace := (hof.first hwaiting).1
  rw [hwaiting, List.length_cons] at hlength
  have hnext : p.jobs.length - w.waiting.length + 1 = p.jobs.length - rest.length := by
    rw [hwaiting, List.length_cons]
    omega
  have hstep := Pool.Step.begin (p := p) (c := w.config p .admitted s) rfl
  unfold config at hstep ⊢
  dsimp only at hstep
  rwa [hnext, ← hplace, ← List.map_singleton (f := fun j : Nat × Job σ ε ρ => (j.1, none)),
    ← List.map_append, hplace] at hstep

/-- The next job that waits may be begun. -/
theorem Window.Of.begin (hof : w.Of p) (hwaiting : w.waiting = j :: rest) :
    Window.Of p ⟨rest, w.begun ++ [j], w.results⟩ := by
  refine ⟨(List.suffix_cons _ _).trans (hwaiting ▸ hof.waiting), fun k hk => ?_⟩
  rcases List.mem_append.mp hk with hk | hk
  · exact hof.begun k hk
  · rw [List.mem_singleton.mp hk]
    exact (hof.first hwaiting).2

end

/-- **As long as there is room and no stop**, waiting jobs are begun. -/
theorem Window.exists_runs_fill (hof : w.Of p) (hstop : p.stop s = false) :
    (w.fill p.limit).Of p ∧ ∃ events,
      p.Runs (w.config p .filling s) events ((w.fill p.limit).config p .filled s) := by
  induction hn : w.waiting generalizing w with
  | nil =>
    rw [fill_of_none hn]
    exact ⟨hof, [.moved], .single (step_full (.inl hn))⟩
  | cons j rest ih =>
    by_cases hroom : w.begun.length < p.limit
    · obtain ⟨hfill, events, hruns⟩ := ih (hof.begin hn) rfl
      rw [fill_cons hn hroom]
      exact ⟨hfill, _, .cons (step_look hof hn hroom hstop) (.cons (step_begin hof hn) hruns)⟩
    · rw [fill_of_full (Nat.not_lt.mp hroom)]
      exact ⟨hof, [.moved], .single (step_full (.inr (Nat.not_lt.mp hroom)))⟩

/-- **Filling the window** is a run of the pool: looks at the state, and jobs that are begun. -/
theorem Window.exists_runs_fillUnless (hof : w.Of p) :
    (w.fillUnless (p.stop s) p.limit).Of p ∧ ∃ events, p.Runs (w.config p .filling s) events
      ((w.fillUnless (p.stop s) p.limit).config p .filled s) := by
  cases hstop : p.stop s with
  | false => exact exists_runs_fill hof hstop
  | true =>
    refine ⟨hof, ?_⟩
    cases hn : w.waiting with
    | nil => exact ⟨[.moved], .single (step_full (.inl hn))⟩
    | cons j rest =>
      by_cases hroom : w.begun.length < p.limit
      · exact ⟨[.looked true], .single (step_look hof hn hroom hstop)⟩
      · exact ⟨[.moved], .single (step_full (.inr (Nat.not_lt.mp hroom)))⟩

/-! ## The jobs that end -/

/-- **The jobs in flight come to their ends**, one after another. -/
theorem exists_runs_drain (i : Nat) (fault : ε) (next : Nat) (results : List (Nat × ρ)) (s : σ)
    {others : List (Nat × Job σ ε ρ)} (hothers : ∀ j ∈ others, p.jobs[j.1]? = some j.2)
    (ended : List (Nat × Option (Except ε ρ))) (hended : ∀ j ∈ ended, j.2.isSome = true) :
    ∃ events inFlight, p.Runs
      ⟨.closing i fault, next, ended ++ others.map (fun j => (j.1, none)), results, s⟩ events
      ⟨.raised i fault, next, inFlight, results, Window.drain others s⟩ := by
  induction others generalizing ended s with
  | nil =>
    refine ⟨[.moved], ended, .single ?_⟩
    rw [List.map_nil, List.append_nil]
    exact .close rfl hended
  | cons j rest ih =>
    obtain ⟨events, inFlight, hruns⟩ := ih (j.2 s).2
      (fun k hk => hothers k (List.mem_cons_of_mem _ hk)) (ended ++ [(j.1, some (j.2 s).1)])
      fun k hk => by
        rcases List.mem_append.mp hk with hk | hk
        · exact hended k hk
        · rw [List.mem_singleton.mp hk]
          rfl
    rw [List.append_assoc] at hruns
    exact ⟨_, inFlight, .cons (.finish (hothers j (List.mem_cons_self ..)) rfl) hruns⟩

theorem getElem?_split {α : Type} {l : List α} {k : Nat} {x : α} (h : l[k]? = some x) :
    l = l.take k ++ x :: l.drop (k + 1) := by
  obtain ⟨hk, rfl⟩ := List.getElem?_eq_some_iff.mp h
  rw [List.getElem_cons_drop, List.take_append_drop]

/-- **A job of the window ends**, its end is noticed, and its outcome is about to be
collected. -/
theorem Window.runs_end {completion : Completion} {i : Nat} {job : Job σ ε ρ}
    (hof : w.Of p) (hturn : w.begun[w.turn completion]? = some (i, job)) :
    p.Runs (w.config p .filled s) [.ended i (job s).1, .moved]
      ⟨.collecting [i], p.jobs.length - w.waiting.length,
        (w.begun.take (w.turn completion)).map (fun j => (j.1, none))
          ++ (i, some (job s).1)
            :: (w.begun.drop (w.turn completion + 1)).map fun j => (j.1, none),
        w.results, (job s).2⟩ := by
  have hflight : (w.config p .filled s).inFlight
      = (w.begun.take (w.turn completion)).map (fun j => (j.1, none))
        ++ (i, none) :: (w.begun.drop (w.turn completion + 1)).map fun j => (j.1, none) := by
    show w.begun.map _ = _
    conv_lhs => rw [getElem?_split hturn]
    rw [List.map_append, List.map_cons]
  refine .cons (.finish (hof.begun _ (List.mem_of_getElem? hturn)) hflight) (.single ?_)
  refine .wake rfl (List.cons_ne_nil _ _) (List.pairwise_singleton ..) fun j hj => ?_
  rw [List.mem_singleton.mp hj]
  exact ⟨_, List.mem_append_right _ (List.mem_cons_self ..)⟩

/-- A job that ends leaves the window, and its value goes to the results. -/
theorem Window.Of.ended {k : Nat} (hof : w.Of p) (r : Nat × ρ) :
    Window.Of p ⟨w.waiting, w.begun.eraseIdx k, w.results ++ [r]⟩ :=
  ⟨hof.waiting, fun j hj => hof.begun j (List.mem_of_mem_eraseIdx hj)⟩

/-! ## Whole runs -/

/-- **From the head of the loop** to the filled window, when there is anything to do. -/
theorem Window.exists_runs_filled (hof : w.Of p) (hmore : w.waiting ≠ [] ∨ w.begun ≠ []) :
    (w.fillUnless (p.stop s) p.limit).Of p ∧ ∃ events, p.Runs (w.config p .head s) events
      ((w.fillUnless (p.stop s) p.limit).config p .filled s) := by
  obtain ⟨hfilled, events, hruns⟩ := exists_runs_fillUnless (s := s) hof
  refine ⟨hfilled, .moved :: events, .cons (.enter rfl (hmore.imp (fun hwaiting => ?_) ?_)) hruns⟩
  · have hlength := hof.length_le
    have hpos := List.length_pos_iff.mpr hwaiting
    show p.jobs.length - w.waiting.length < p.jobs.length
    omega
  · exact fun hbegun hnone => hbegun (List.map_eq_nil_iff.mp hnone)

/-- Where nothing waits, the window is filled as it is. -/
theorem Window.fillUnless_of_none {stopped : Bool} {limit : Nat} (h : w.waiting = []) :
    w.fillUnless stopped limit = w := by
  cases stopped with
  | false => exact fill_of_none h
  | true => rfl

/-- A window of which no job can end has none. -/
theorem Window.begun_eq_nil {completion : Completion}
    (h : w.begun[w.turn completion]? = none) : w.begun = [] := by
  by_contra hne
  rw [List.getElem?_eq_none_iff] at h
  exact absurd (Nat.mod_lt _ (List.length_pos_iff.mpr hne)) (Nat.not_lt.mpr h)

/-- Some job is begun, so there was something to do. -/
theorem Window.more_of_turn {completion : Completion} {stopped : Bool} {limit : Nat}
    {j : Nat × Job σ ε ρ}
    (h : (w.fillUnless stopped limit).begun[(w.fillUnless stopped limit).turn completion]?
      = some j) : w.waiting ≠ [] ∨ w.begun ≠ [] := by
  by_contra hnone
  rw [not_or, not_not, not_not] at hnone
  rw [fillUnless_of_none hnone.1, hnone.2] at h
  cases h

/-- **A window in which no job is begun** ends the run. -/
theorem Window.exists_runs_returned (hof : w.Of p)
    (hnone : (w.fillUnless (p.stop s) p.limit).begun = []) :
    (w.fillUnless (p.stop s) p.limit).Of p ∧ ∃ events, p.Runs (w.config p .head s) events
      ((w.fillUnless (p.stop s) p.limit).config p .returned s) := by
  by_cases hmore : w.waiting ≠ [] ∨ w.begun ≠ []
  · obtain ⟨hfilled, events, hruns⟩ := exists_runs_filled (s := s) hof hmore
    refine ⟨hfilled, events ++ [.moved], hruns.append (.single (.idle rfl ?_))⟩
    show List.map _ _ = []
    rw [hnone, List.map_nil]
  · rw [not_or, not_not, not_not] at hmore
    rw [fillUnless_of_none hmore.1]
    refine ⟨hof, [.moved], .single (.leave rfl ?_ ?_)⟩
    · show ¬ p.jobs.length - w.waiting.length < p.jobs.length
      rw [hmore.1]
      exact Nat.lt_irrefl _
    · show List.map _ _ = []
      rw [hmore.2, List.map_nil]

theorem eraseIdx_map_none (jobs : List (Nat × Job σ ε ρ)) (k : Nat) :
    (jobs.take k).map (fun j => (j.1, none)) ++ (jobs.drop (k + 1)).map (fun j => (j.1, none))
      = (jobs.eraseIdx k).map fun j => (j.1, (none : Option (Except ε ρ))) := by
  rw [List.eraseIdx_eq_take_drop_succ, List.map_append]

/-- **The rest of a bounded run** from a window on is a step-by-step run. -/
theorem Window.exists_runs (completion : Completion) (hof : w.Of p) :
    ∃ events c, p.Runs (w.config p .head s) events c
      ∧ c.answer? p = some ((w.run p.limit p.stop completion s).1.mapError Fault.job,
        (w.run p.limit p.stop completion s).2) := by
  fun_induction Window.run p.limit p.stop completion w s with
  | case1 w s filled hturn =>
    obtain ⟨hfilled, events, hruns⟩ := exists_runs_returned (s := s) hof (begun_eq_nil hturn)
    refine ⟨events, _, hruns, ?_⟩
    have hleft : p.jobs.length - (p.jobs.length - filled.waiting.length)
        = filled.waiting.length := Nat.sub_sub_self hfilled.length_le
    show some (Except.ok (Run.mk filled.results
      (p.jobs.length - (p.jobs.length - filled.waiting.length))), s) = _
    rw [hleft]
    rfl
  | case2 w s filled others i job hturn e after hjob =>
    obtain ⟨hfilled, events, hruns⟩ := exists_runs_filled (s := s) hof (more_of_turn hturn)
    have hend := runs_end (s := s) hfilled hturn
    rw [hjob] at hend
    obtain ⟨more, inFlight, hdrain⟩ := exists_runs_drain i e
      (p.jobs.length - filled.waiting.length) filled.results after
      (fun j hj => hfilled.begun j (List.mem_of_mem_eraseIdx hj)) [] (fun j hj => nomatch hj)
    rw [List.nil_append, ← eraseIdx_map_none] at hdrain
    exact ⟨_, _, hruns.append (hend.append (.cons (.fault rfl rfl) hdrain)), rfl⟩
  | case3 w s filled others i job hturn r after hjob ih =>
    obtain ⟨hfilled, events, hruns⟩ := exists_runs_filled (s := s) hof (more_of_turn hturn)
    have hend := runs_end (s := s) hfilled hturn
    rw [hjob] at hend
    obtain ⟨more, c, hrest, hanswer⟩ := ih (hfilled.ended (i, r))
    unfold config at hrest
    dsimp only [others] at hrest
    rw [← eraseIdx_map_none] at hrest
    exact ⟨_, c, hruns.append (hend.append (.cons (.keep rfl rfl) (.cons (.next rfl) hrest))),
      hanswer⟩

/-- **A bounded run** is one of the step-by-step runs of its jobs, whichever jobs it has
end first. -/
theorem exists_runs_bounded (hlimit : 0 < p.limit) (completion : Completion) (s : σ) :
    ∃ events c, p.Runs (.initial s) events c
      ∧ c.answer? p = some (bounded p.limit p.stop completion p.jobs s) := by
  obtain ⟨events, c, hruns, hanswer⟩ := Window.exists_runs (s := s) completion (Window.Of.initial p)
  refine ⟨events, c, ?_, ?_⟩
  · have hfirst : (Window.initial p.jobs).config p .head s = .initial s := by
      show Config.mk _ (p.jobs.length - (placed p.jobs).length) _ _ _ = _
      rw [length_placed, Nat.sub_self]
      rfl
    rwa [hfirst] at hruns
  · rw [bounded, if_neg (by omega)]
    exact hanswer

end SyntaxForest.Schedule
