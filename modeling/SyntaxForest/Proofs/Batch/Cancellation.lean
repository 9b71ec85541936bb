import Mathlib
import SyntaxForest.Proofs.Batch.Members
import SyntaxForest.Proofs.Schedule.Stopping

/-!
# A solution that is cancelled

The files of a solution's projects are put in a row and run as one batch, and the batch may be
cancelled at any moment. Whatever the moment, and whichever files are done first, the files with
results are the first ones of the row: the projects in front are complete, those behind have
nothing, and at most one is cut (`analyseSolution_cut`).

Two flags are computed apart, that of a project by counting its results and that of the solution
by the run. They agree because a project lacks results if and only if the row of results ends
before its last file (`exists_cancelled_iff`).
-/

namespace SyntaxForest.Batch

open Analysis

variable {s : Setting} {path : Path} {paths : List Path} {outcomes : List FileOutcome}
  {m : ProjectManifest} {manifests : List ProjectManifest} {now : Moment}
  {outside : Progress → Progress → Prop} {run : Schedule.Run FileResult}

/-! ## Runs over files -/

/-- The bounded run over some files. -/
def pool (s : Setting) (outside : Progress → Progress → Prop) (paths : List Path) :
    Schedule.Pool Progress Fault FileResult :=
  ⟨jobs s paths, s.options.limit.toNat, Progress.cancelled, outside⟩

/-- **What a run over some files may return**: in the mode of the setting, from any progress,
whichever files are done first and whatever is changed beside them. A batch is cancelled by such
a change, or when a source is read. -/
inductive RunOf (s : Setting) (outside : Progress → Progress → Prop) (paths : List Path) :
    Schedule.Run FileResult → Prop
  | sequential {p p' run} (hmode : s.options.mode = .sequential)
      (h : Schedule.Sequence Progress.cancelled outside (Schedule.placed (jobs s paths)) [] p
        (.ok run, p')) : RunOf s outside paths run
  | concurrent {p events c} (hmode : s.options.mode = .concurrent)
      (hroom : 1 ≤ s.options.limit)
      (h : (pool s outside paths).Runs (.initial p) events c) (hphase : c.phase = .returned) :
      RunOf s outside paths (c.run (pool s outside paths))

/-- How the jobs for some files end. -/
def jobOutcomes (s : Setting) (paths : List Path) : List (Except Fault FileResult) :=
  paths.zipIdx.map fun (path, i) => (outcome s path).map fun o => ⟨i, path.text, o⟩

theorem length_jobOutcomes (s : Setting) (paths : List Path) :
    (jobOutcomes s paths).length = paths.length := by
  rw [jobOutcomes, List.length_map, List.length_zipIdx]

/-- **The job for a file** ends in one way, whatever has happened before. -/
theorem jobs_fixed (s : Setting) (paths : List Path) :
    List.Forall₂ Job.Fixed (jobs s paths) (jobOutcomes s paths) := by
  rw [jobs, jobOutcomes, List.forall₂_map_left_iff, List.forall₂_map_right_iff,
    List.forall₂_same]
  rintro ⟨path, i⟩ - p
  obtain ⟨p', hrun, -⟩ := analyseFile_settles s i path p trivial
  exact congrArg Prod.fst hrun

/-- The outcomes of the first of some files. -/
def FirstOutcomes (s : Setting) (paths : List Path) (outcomes : List FileOutcome) : Prop :=
  List.Forall₂ (fun path o => outcome s path = .ok o) (paths.take outcomes.length) outcomes

theorem FirstOutcomes.length_le (h : FirstOutcomes s paths outcomes) :
    outcomes.length ≤ paths.length := by
  have hlength := h.length_eq
  rw [List.length_take] at hlength
  omega

/-- The values of the first jobs are the results for the first files. -/
theorem exists_firstOutcomes {values : List FileResult}
    (h : values.map Except.ok = (jobOutcomes s paths).take values.length) :
    ∃ outcomes, FirstOutcomes s paths outcomes ∧ values = resultsFrom 0 paths outcomes := by
  suffices hgo : ∀ k, values.map Except.ok = ((paths.zipIdx k).map fun (path, i) =>
      (outcome s path).map fun o => (⟨i, path.text, o⟩ : FileResult)).take values.length →
      ∃ outcomes, FirstOutcomes s paths outcomes ∧ values = resultsFrom k paths outcomes from
    hgo 0 h
  clear h
  induction values generalizing paths with
  | nil =>
    refine fun k _ => ⟨[], .nil, ?_⟩
    rw [resultsFrom, List.zip_nil_right]
    rfl
  | cons r values ih =>
    intro k h
    cases paths with
    | nil => cases h
    | cons path paths =>
      rw [List.zipIdx_cons, List.map_cons, List.map_cons, List.length_cons, List.take_succ_cons,
        List.cons.injEq] at h
      obtain ⟨outcomes, hrest, rfl⟩ := ih (k + 1) h.2
      have hfirst : Except.ok r = (outcome s path).map fun o => ⟨k, path.text, o⟩ := h.1
      cases ho : outcome s path with
      | error fault => rw [ho] at hfirst; cases hfirst
      | ok o =>
        rw [ho] at hfirst
        cases hfirst
        exact ⟨o :: outcomes, .cons ho hrest, rfl⟩

/-- **A run that returns** has the results for the first files, in their order. -/
theorem RunOf.exists_outcomes (h : RunOf s outside paths run) :
    ∃ outcomes, FirstOutcomes s paths outcomes
      ∧ run.ordered = resultsFrom 0 paths outcomes
      ∧ (run.cancelled = true ↔ outcomes.length < paths.length) := by
  obtain ⟨values, hfirst⟩ : ∃ values, run.OfFirst (jobOutcomes s paths) values := by
    cases h with
    | sequential _ h => exact h.ofFirst (jobs_fixed s paths)
    | concurrent _ hroom h hphase =>
      exact h.ofFirst (Int.lt_toNat.mpr hroom) hphase (jobs_fixed s paths)
  obtain ⟨outcomes, houtcomes, rfl⟩ := exists_firstOutcomes hfirst.own
  refine ⟨outcomes, houtcomes, Schedule.ordered_eq hfirst.results, ?_⟩
  rw [hfirst.cancelled_iff, length_jobOutcomes, length_resultsFrom houtcomes.length_le]

theorem jobOutcomes_eq (h : List.Forall₂ (fun path o => outcome s path = .ok o) paths outcomes) :
    (resultsFrom 0 paths outcomes).map Except.ok = jobOutcomes s paths := by
  rw [jobOutcomes]
  generalize 0 = k
  induction h generalizing k with
  | nil => rfl
  | @cons path o paths outcomes ho _ ih =>
    rw [List.zipIdx_cons, List.map_cons, ← ih (k + 1)]
    dsimp only
    rw [ho]
    rfl

/-! ### The schedules are among these runs -/

theorem run_ofRun (r : Except Fault (Schedule.Run FileResult) × Progress) (p : Progress) :
    (ofRun r).run p = r := by
  obtain ⟨r, q⟩ := r
  cases r <;> rfl

theorem runFiles_sequential (hmode : s.options.mode = .sequential) (paths : List Path)
    (p : Progress) :
    (runFiles s paths).run p = Schedule.sequential Progress.cancelled (jobs s paths) p := by
  rw [← run_ofRun (Schedule.sequential Progress.cancelled (jobs s paths) p) p]
  unfold runFiles
  rw [hmode]
  rfl

/-- What is told of a run is not seen in what it comes to. -/
theorem tellRun_comesTo (r : Except Fault (Schedule.Run FileResult)) (total : Nat)
    (p q : Progress) :
    ((do
      let run ← ofRun (r, q)
      (run.entries total).forM tell
      return run : Work _).run p).1 = r := by
  cases r with
  | error fault => rfl
  | ok run =>
    obtain ⟨p', htell, -⟩ := tellAll_comesToIn indifferent_true (run.entries total) q trivial
    rw [run_bind (run_ofRun (.ok run, q) p), run_bind htell]
    rfl

theorem runFiles_concurrent (hmode : s.options.mode = .concurrent) (paths : List Path)
    (p : Progress) :
    ((runFiles s paths).run p).1 = .ok run
      ↔ (Schedule.bounded s.options.limit Progress.cancelled s.completion (jobs s paths) p).1
          = .ok run := by
  obtain ⟨f, hrun⟩ : ∃ f, ((runFiles s paths).run p).1
      = (Schedule.bounded s.options.limit Progress.cancelled s.completion (jobs s paths)
          p).1.mapError f := by
    unfold runFiles
    rw [hmode]
    exact ⟨_, tellRun_comesTo _ paths.length p _⟩
  rw [hrun]
  cases (Schedule.bounded s.options.limit Progress.cancelled s.completion (jobs s paths) p).1 with
  | error fault =>
    constructor
    all_goals
      intro h
      cases h
  | ok run' => rw [Except.mapError, Except.ok.injEq, Except.ok.injEq]

/-- **What the run over files returns** is what such a run may return. -/
theorem runOf_of_runFiles {p : Progress} (outside : Progress → Progress → Prop)
    (h : ((runFiles s paths).run p).1 = .ok run) : RunOf s outside paths run := by
  cases hmode : s.options.mode with
  | sequential =>
    rw [runFiles_sequential hmode, Schedule.sequential] at h
    have hsequence := Schedule.sequence_sequentialFrom Progress.cancelled outside
      (Schedule.placed (jobs s paths)) [] p
    generalize Schedule.sequentialFrom Progress.cancelled [] (Schedule.placed (jobs s paths)) p
      = answer at h hsequence
    obtain ⟨r, p'⟩ := answer
    obtain rfl : r = .ok run := h
    exact .sequential hmode hsequence
  | concurrent =>
    rw [runFiles_concurrent hmode] at h
    by_cases hroom : 1 ≤ s.options.limit
    · have hlimit : ((s.options.limit.toNat : Nat) : Int) = s.options.limit :=
        Int.toNat_of_nonneg (by omega)
      obtain ⟨events, c, hruns, hanswer⟩ := Schedule.exists_runs_bounded
        (p := pool s outside paths) (Int.lt_toNat.mpr hroom) s.completion p
      dsimp only [pool] at hanswer
      rw [hlimit] at hanswer
      cases hphase : c.phase with
      | returned =>
        rw [Schedule.Config.answer?, hphase] at hanswer
        rw [← Option.some.inj hanswer] at h
        cases h
        exact .concurrent hmode hroom hruns hphase
      | raised i fault =>
        rw [Schedule.Config.answer?, hphase] at hanswer
        rw [← Option.some.inj hanswer] at h
        cases h
      | _ => rw [Schedule.Config.answer?, hphase] at hanswer; cases hanswer
    · rw [Schedule.bounded, if_pos (by omega)] at h
      cases h

/-- **The run over files that all have outcomes** returns. -/
theorem exists_runFiles (hroom : s.options.mode = .concurrent → 1 ≤ s.options.limit)
    (h : ∀ path ∈ paths, ∃ o, outcome s path = .ok o) (p : Progress) :
    ∃ run, ((runFiles s paths).run p).1 = .ok run := by
  obtain ⟨outcomes, houtcomes⟩ := exists_forall₂ h
  have hjobs := jobs_fixed s paths
  rw [← jobOutcomes_eq houtcomes] at hjobs
  cases hmode : s.options.mode with
  | sequential =>
    obtain ⟨run, p', hrun⟩ : ∃ run p', Schedule.sequential Progress.cancelled _ p = (.ok run, p') :=
      Schedule.exists_sequential hjobs p
    exact ⟨run, by rw [runFiles_sequential hmode, hrun]⟩
  | concurrent =>
    have hroom := hroom hmode
    have hlimit : ((s.options.limit.toNat : Nat) : Int) = s.options.limit :=
      Int.toNat_of_nonneg (by omega)
    obtain ⟨events, c, hruns, hphase, hbounded⟩ := Schedule.Pool.exists_bounded
      (p := pool s (fun _ _ => False) paths) (Int.lt_toNat.mpr hroom) hjobs s.completion p
    dsimp only [pool] at hbounded
    rw [hlimit] at hbounded
    exact ⟨_, (runFiles_concurrent hmode paths p).mpr (congrArg Prod.fst hbounded)⟩

/-! ## Shares -/

theorem fileCount_ofOutcomes (path name : String) (dependencies : List String) (now : Moment)
    (outcomes : List FileOutcome) (cancelled : Bool) :
    (ProjectReport.ofOutcomes path name dependencies now outcomes cancelled).fileCount
      = outcomes.length := by
  show (outcomes.filterMap FileOutcome.report?).length
    + (outcomes.filterMap FileOutcome.failure?).length = outcomes.length
  induction outcomes with
  | nil => rfl
  | cons o rest ih =>
    rw [List.filterMap_cons, List.filterMap_cons, List.length_cons, ← ih]
    cases o with
    | analysed r => exact Nat.add_right_comm _ _ _
    | failed f => rfl

theorem fileCount_shareReport : (shareReport now m outcomes).fileCount = outcomes.length :=
  fileCount_ofOutcomes ..

/-- The first files of a row are first files of its two parts. -/
theorem FirstOutcomes.append {paths' : List Path}
    (h : FirstOutcomes s (paths ++ paths') outcomes) :
    FirstOutcomes s paths (outcomes.take paths.length)
      ∧ FirstOutcomes s paths' (outcomes.drop paths.length) := by
  have hfront := List.forall₂_take paths.length h
  have hback := List.forall₂_drop paths.length h
  rw [List.take_take, List.take_append_of_le_length (Nat.min_le_left _ _)] at hfront
  rw [List.drop_take, List.drop_append_length] at hback
  refine ⟨?_, ?_⟩
  · rwa [FirstOutcomes, List.length_take]
  · rwa [FirstOutcomes, List.length_drop]

/-- **A project and its report**, if its first files have outcomes. -/
structure IsShare (s : Setting) (m : ProjectManifest) (project : ProjectReport) : Prop where
  /-- The report is made from the outcomes of the first files of the manifest, in their order. -/
  first : ∃ outcomes, FirstOutcomes s m.files outcomes
    ∧ project = shareReport s.now m outcomes
  /-- It is marked if and only if some of its files have none. -/
  cancelled : project.cancelled = true ↔ project.fileCount < m.files.length

theorem isShare_shareReport (h : FirstOutcomes s m.files outcomes) :
    IsShare s m (shareReport s.now m outcomes) := by
  refine ⟨⟨outcomes, h, rfl⟩, ?_⟩
  rw [fileCount_shareReport]
  exact decide_eq_true_iff

/-- The reports that the outcomes for the first files of some projects make. -/
abbrev shareReports (now : Moment) (manifests : List ProjectManifest)
    (outcomes : List FileOutcome) : List ProjectReport :=
  List.zipWith (shareReport now) manifests (shares manifests outcomes)

/-- The files of a project that its report is about. -/
def doneFiles (m : ProjectManifest) (project : ProjectReport) : List Path :=
  m.files.take project.fileCount

/-- The project is begun and not complete. -/
def isCut (m : ProjectManifest) (project : ProjectReport) : Bool :=
  0 < project.fileCount && project.fileCount < m.files.length

theorem forall₂_isShare (h : FirstOutcomes s (manifests.flatMap (·.files)) outcomes) :
    List.Forall₂ (IsShare s) manifests (shareReports s.now manifests outcomes) := by
  induction manifests generalizing outcomes with
  | nil => exact .nil
  | cons m rest ih =>
    rw [List.flatMap_cons] at h
    obtain ⟨hown, hrest⟩ := h.append
    exact .cons (isShare_shareReport hown) (ih hrest)

/-- **The files that the reports are about** are the first ones of the row. -/
theorem flatten_doneFiles (now : Moment) (manifests : List ProjectManifest)
    (outcomes : List FileOutcome) :
    (List.zipWith doneFiles manifests (shareReports now manifests outcomes)).flatten
      = (manifests.flatMap (·.files)).take outcomes.length := by
  induction manifests generalizing outcomes with
  | nil => exact List.take_nil.symm
  | cons m rest ih =>
    rw [shareReports, shares, List.zipWith_cons_cons, List.zipWith_cons_cons, List.flatten_cons,
      ih, List.flatMap_cons, List.take_append, doneFiles, fileCount_shareReport,
      List.length_take, List.length_drop, Nat.min_comm m.files.length,
      ← List.take_eq_take_min]

/-- **The reports count the outcomes.** -/
theorem sum_fileCount (now : Moment) (h : outcomes.length ≤ (manifests.flatMap (·.files)).length) :
    ((shareReports now manifests outcomes).map (·.fileCount)).sum = outcomes.length := by
  induction manifests generalizing outcomes with
  | nil => exact (Nat.le_zero.mp h).symm
  | cons m rest ih =>
    rw [List.flatMap_cons, List.length_append] at h
    rw [shareReports, shares, List.zipWith_cons_cons, List.map_cons, List.sum_cons,
      fileCount_shareReport, ih (by rw [List.length_drop]; omega), ← List.length_append,
      List.take_append_drop]

theorem isCut_shareReport : isCut m (shareReport now m outcomes) = true
    ↔ 0 < outcomes.length ∧ outcomes.length < m.files.length := by
  rw [isCut, fileCount_shareReport, Bool.and_eq_true, decide_eq_true_iff, decide_eq_true_iff]

/-- How many projects are cut. -/
def cuts (manifests : List ProjectManifest) (projects : List ProjectReport) : Nat :=
  (List.zip manifests projects).countP fun (m, project) => isCut m project

theorem cuts_cons (m : ProjectManifest) (rest : List ProjectManifest) :
    cuts (m :: rest) (shareReports now (m :: rest) outcomes)
      = cuts rest (shareReports now rest (outcomes.drop m.files.length))
        + if 0 < outcomes.length ∧ outcomes.length < m.files.length then 1 else 0 := by
  have hcut : isCut m (shareReport now m (outcomes.take m.files.length)) = true
      ↔ 0 < outcomes.length ∧ outcomes.length < m.files.length := by
    rw [isCut_shareReport, List.length_take]
    omega
  rw [cuts, shareReports, shares, List.zipWith_cons_cons, List.zip_cons_cons, List.countP_cons]
  simp only [hcut]
  rfl

/-- Without outcomes nothing is begun. -/
theorem cuts_nil (now : Moment) (manifests : List ProjectManifest) :
    cuts manifests (shareReports now manifests []) = 0 := by
  induction manifests with
  | nil => rfl
  | cons m rest ih =>
    rw [cuts_cons, List.drop_nil, ih, if_neg (fun h => Nat.lt_irrefl 0 h.1)]

/-- **At most one project is cut**: one that is leaves no outcomes for those behind it. -/
theorem cuts_le_one (now : Moment) (manifests : List ProjectManifest)
    (outcomes : List FileOutcome) : cuts manifests (shareReports now manifests outcomes) ≤ 1 := by
  induction manifests generalizing outcomes with
  | nil => exact Nat.zero_le 1
  | cons m rest ih =>
    rw [cuts_cons]
    split
    · next hcut =>
      rw [List.drop_eq_nil_of_le (Nat.le_of_lt hcut.2), cuts_nil]
    · exact ih _

/-- **A project is marked** if and only if the row of outcomes ends before the last file. -/
theorem exists_cancelled_iff (now : Moment) (manifests : List ProjectManifest)
    (outcomes : List FileOutcome) :
    (∃ project ∈ shareReports now manifests outcomes, project.cancelled = true)
      ↔ outcomes.length < (manifests.flatMap (·.files)).length := by
  induction manifests generalizing outcomes with
  | nil => exact ⟨fun ⟨_, hin, _⟩ => (nomatch hin), fun h => (nomatch h)⟩
  | cons m rest ih =>
    rw [shareReports, shares, List.zipWith_cons_cons, List.exists_mem_cons_iff, ih,
      List.flatMap_cons, List.length_append, List.length_drop]
    show decide ((outcomes.take m.files.length).length < m.files.length) = true ∨ _ ↔ _
    rw [decide_eq_true_iff, List.length_take]
    omega

/-! ## Solutions -/

/-- **What may be reported of a solution**: the reports that the runs over its files make. -/
inductive Reports (s : Setting) (outside : Progress → Progress → Prop) (path : Path) :
    SolutionManifest → SolutionReport → Prop
  | of {solution run} (hsolution : Manifest.readSolution s.files path = .ok solution)
      (hmembers : ReadOrRefused s solution.members)
      (hrun : RunOf s outside (filesOf s solution) run) :
      Reports s outside path solution (solutionReport s solution run)

/-- **A report with the results for the first `k` files** of a row of projects. -/
structure CutAfter (s : Setting) (manifests : List ProjectManifest) (k : Nat)
    (report : SolutionReport) : Prop where
  le : k ≤ (manifests.flatMap (·.files)).length
  /-- The report on each project is about first files of its manifest. -/
  projects : List.Forall₂ (IsShare s) manifests report.projects
  /-- Together these are the first files of the row. -/
  files : (List.zipWith doneFiles manifests report.projects).flatten
    = (manifests.flatMap (·.files)).take k
  fileCount : (report.projects.map (·.fileCount)).sum = k
  cuts : cuts manifests report.projects ≤ 1
  cancelled : report.cancelled = true ↔ ∃ project ∈ report.projects, project.cancelled = true

theorem RunOf.exists_cutAfter {solution : SolutionManifest}
    (h : RunOf s outside (filesOf s solution) run) :
    ∃ k, CutAfter s (manifestsOf s solution) k (solutionReport s solution run) := by
  obtain ⟨outcomes, houtcomes, hordered, hcancelled⟩ := h.exists_outcomes
  have hprojects : (solutionReport s solution run).projects
      = shareReports s.now (manifestsOf s solution) outcomes := by
    rw [shareReports, ← dealOut_eq, ← filesOf, ← hordered]
    rfl
  refine ⟨outcomes.length, houtcomes.length_le, ?_, ?_, ?_, ?_, ?_⟩
  · rw [hprojects]
    exact forall₂_isShare houtcomes
  · rw [hprojects]
    exact flatten_doneFiles s.now _ _
  · rw [hprojects]
    exact sum_fileCount s.now houtcomes.length_le
  · rw [hprojects]
    exact cuts_le_one s.now _ _
  · rw [hprojects, exists_cancelled_iff]
    exact hcancelled

/-- **A cancelled solution has the results for the first of its files.** Whatever the moment at
which it is cancelled, and whichever files are done first, the reports on its projects are about
the first files of their manifests and together about the first files of the solution; at most
one project is cut, a project is marked if and only if some of its files have no result, and the
solution if and only if some project is. What the analysis of a solution returns is such a
report, and it returns if every manifest reads or is refused and every file has an outcome. -/
theorem analyseSolution_cut (s : Setting) (path : Path) :
    (∀ outside solution report, Reports s outside path solution report →
        ∃ k, CutAfter s (manifestsOf s solution) k report)
      ∧ (∀ outside p report, ((analyseSolution s path).run p).1 = .ok report →
        ∃ solution, Reports s outside path solution report)
      ∧ ∀ solution, Manifest.readSolution s.files path = .ok solution →
        ReadOrRefused s solution.members →
        (∀ file ∈ filesOf s solution, ∃ o, outcome s file = .ok o) →
        (s.options.mode = .concurrent → 1 ≤ s.options.limit) →
        ∀ p, ∃ report, ((analyseSolution s path).run p).1 = .ok report := by
  refine ⟨?_, ?_, ?_⟩
  · rintro outside solution _ ⟨-, -, hrun⟩
    exact hrun.exists_cutAfter
  · intro outside p report hreport
    cases hsolution : Manifest.readSolution s.files path with
    | error fault =>
      unfold analyseSolution at hreport
      rw [hsolution] at hreport
      cases hreport
    | ok solution =>
      have hmembers := readOrRefused_of_run hsolution hreport
      obtain ⟨q, hrun⟩ := analyseSolution_run hsolution hmembers p
      rw [hrun] at hreport
      cases hresult : ((runFiles s (filesOf s solution)).run q).1 with
      | error fault => rw [hresult] at hreport; cases hreport
      | ok run =>
        rw [hresult] at hreport
        cases hreport
        exact ⟨solution, .of hsolution hmembers (runOf_of_runFiles outside hresult)⟩
  · intro solution hsolution hmembers hfiles hroom p
    obtain ⟨q, hrun⟩ := analyseSolution_run hsolution hmembers p
    obtain ⟨run, hresult⟩ := exists_runFiles hroom hfiles q
    exact ⟨_, by rw [hrun, hresult]; rfl⟩

/-! ### A solution that is cancelled between two files -/

/-- Anybody may cancel the batch. -/
def cancels (_ p : Progress) : Prop := p.cancelled = true

/-- The bounded run over the files of the solution, which are one file twice. -/
def sharedPool : Schedule.Pool Progress Fault FileResult :=
  pool sharedSetting cancels [⟨"/", ["b.cs"]⟩, ⟨"/", ["b.cs"]⟩]

/-- The first file is begun, the batch is cancelled, and the file is done. -/
theorem exists_runOf_shared : ∃ o run,
    RunOf sharedSetting cancels [⟨"/", ["b.cs"]⟩, ⟨"/", ["b.cs"]⟩] run
      ∧ run.ordered = [⟨0, "/b.cs", o⟩] ∧ run.cancelled = true := by
  obtain ⟨o, ho⟩ := outcome_shared
  have hjob : ((analyseFile sharedSetting 0 ⟨"/", ["b.cs"]⟩).run { cancelled := true }).1
      = .ok ⟨0, "/b.cs", o⟩ := by
    obtain ⟨p', hrun, -⟩ := analyseFile_settles sharedSetting 0 ⟨"/", ["b.cs"]⟩
      { cancelled := true } trivial
    rw [hrun, ho]
    rfl
  have hbegun : ∃ events, sharedPool.Runs (.initial {}) events
      ⟨.filled, 1, [(0, none)], [], { cancelled := true }⟩ :=
    ⟨_, .cons (.enter rfl (.inl (by decide))) <|
      .cons (.look rfl (by decide) (by decide)) <| .cons (.begin rfl) <|
      .cons (.outside (show cancels {} { cancelled := true } from rfl)) <|
      .single (.look rfl (by decide) (by decide))⟩
  have hfinished : ∃ p events, sharedPool.Runs
      ⟨.filled, 1, [(0, none)], [], { cancelled := true }⟩ events
      ⟨.filled, 1, [(0, some (.ok ⟨0, "/b.cs", o⟩))], [], p⟩ := by
    have hstep := Schedule.Pool.Step.finish (p := sharedPool)
      (c := ⟨.filled, 1, [(0, none)], [], { cancelled := true }⟩)
      (show sharedPool.jobs[0]? = some (analyseFile sharedSetting 0 ⟨"/", ["b.cs"]⟩).run from rfl)
      (show _ = [] ++ (0, none) :: [] from rfl)
    rw [hjob] at hstep
    exact ⟨_, _, .single hstep⟩
  obtain ⟨p, finished, hfinished⟩ := hfinished
  have hended : ∃ events, sharedPool.Runs
      ⟨.filled, 1, [(0, some (.ok ⟨0, "/b.cs", o⟩))], [], p⟩ events
      ⟨.returned, 1, [], [(0, ⟨0, "/b.cs", o⟩)], { cancelled := true }⟩ :=
    ⟨_, .cons (.outside (show cancels p { cancelled := true } from rfl)) <|
      .cons (.wake rfl (show [0] ≠ [] by decide) (by decide) (by simp)) <|
      .cons (.keep rfl (show _ = [] ++ (0, some (Except.ok _)) :: [] from rfl)) <|
      .cons (.next rfl) <| .cons (.enter rfl (.inl (show 1 < 2 by decide))) <|
      .cons (.look rfl (show 1 < 2 by decide) (show 0 < 2 by decide)) <| .single (.idle rfl rfl)⟩
  obtain ⟨begun, hbegun⟩ := hbegun
  obtain ⟨ended, hended⟩ := hended
  exact ⟨o, _, .concurrent rfl (by decide) (hbegun.append (hfinished.append hended)) rfl,
    Schedule.ordered_eq (.refl _), rfl⟩

/-- The first project is complete, the second is not begun and marked, and so is the
solution; and the analysis of the solution returns. -/
theorem analyseSolution_cut_shared :
    (∃ solution report,
      Reports sharedSetting cancels ⟨"/", ["s.sln"]⟩ solution report
        ∧ CutAfter sharedSetting (manifestsOf sharedSetting solution) 1 report
        ∧ report.projects.map (·.cancelled) = [false, true] ∧ report.cancelled = true)
      ∧ ∃ solution report,
        ((analyseSolution sharedSetting ⟨"/", ["s.sln"]⟩).run {}).1 = .ok report
          ∧ Reports sharedSetting cancels ⟨"/", ["s.sln"]⟩ solution report := by
  obtain ⟨hcut, hreports, hreturns⟩ := analyseSolution_cut sharedSetting ⟨"/", ["s.sln"]⟩
  obtain ⟨solution, hsolution, hmembers⟩ := exists_readSolution_shared
  have hread : ReadOrRefused sharedSetting solution.members := hmembers ▸ readOrRefused_shared
  have hmanifests : manifestsOf sharedSetting solution
      = [⟨⟨"/", ["p.proj"]⟩, "p", .msbuild, [⟨"/", ["b.cs"]⟩], []⟩,
        ⟨⟨"/", ["r.proj"]⟩, "r", .msbuild, [⟨"/", ["b.cs"]⟩], []⟩] := by
    rw [manifestsOf, hmembers, manifests_shared]
  have hfiles : filesOf sharedSetting solution = [⟨"/", ["b.cs"]⟩, ⟨"/", ["b.cs"]⟩] := by
    rw [filesOf, hmanifests]
    rfl
  refine ⟨?_, ?_⟩
  · obtain ⟨o, run, hrun, hordered, hcancelled⟩ := exists_runOf_shared
    rw [← hfiles] at hrun
    have hreport := Reports.of hsolution hread hrun
    have hprojects : (solutionReport sharedSetting solution run).projects
        = shareReports sharedSetting.now (manifestsOf sharedSetting solution) [o] := by
      rw [shareReports, ← dealOut_eq, hmanifests]
      show dealOut _ run.ordered (manifestsOf sharedSetting solution) = _
      rw [hordered, hmanifests]
      rfl
    obtain ⟨k, hk⟩ := hcut cancels solution _ hreport
    have hone : k = 1 := by
      rw [← hk.fileCount, hprojects, sum_fileCount _ (by rw [hmanifests]; show 1 ≤ 2; decide)]
      rfl
    refine ⟨solution, _, hreport, hone ▸ hk, ?_, hcancelled⟩
    rw [hprojects, hmanifests]
    rfl
  · obtain ⟨report, hreport⟩ := hreturns solution hsolution hread
      (by
        intro file hfile
        rw [hfiles, List.mem_pair, or_self] at hfile
        exact hfile ▸ outcome_shared)
      (fun _ => by decide) {}
    obtain ⟨solution', hreport'⟩ := hreports cancels {} report hreport
    exact ⟨solution', report, hreport, hreport'⟩

end SyntaxForest.Batch
