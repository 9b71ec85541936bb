import Mathlib
import SyntaxForest.Proofs.Analysis.Support
import SyntaxForest.Proofs.Batch.Cancellation
import SyntaxForest.Proofs.Correspondence
import SyntaxForest.Proofs.Manifest.Listed

/-!
# What is discovered is analysed

The files of a project or of a directory are chosen by their suffixes before anybody asks for
their analyzers. The choice is made with the suffixes of all analyzers, and on paths as they are
found, named or resolved; the analyzer is asked for with the text of the path. If the analyzers
declare their suffixes in small letters, every file that is chosen is taken (`Taken`): it has an
analyzer, and the analyzer never says that it does not handle the file. So no report on a project,
a solution or a directory has a failure of support (`discovered_taken`). The files may be run in
any order, and the batch may be cancelled meanwhile (`RunOf.supported`).
-/

namespace SyntaxForest

/-! ## Members of solutions -/

theorem Manifest.written_of_member? {f : Files} {directory : Path} {member : SolutionMember}
    (hf : f.Written) (hdirectory : directory.Written) {e : Solution.WrittenEntry}
    (h : Solution.member? f directory e = .ok (some member)) : member.path.Written := by
  unfold Solution.member? at h
  dsimp only at h
  split at h
  · obtain ⟨absolute, hresolve, h⟩ := exists_of_bind_eq_ok h
    obtain rfl := Option.some.inj (Except.ok.inj h)
    exact written_of_resolve hf (hdirectory.join (Path.written_ofText _)) hresolve
  · cases h

/-- **The members of a solution** have paths whose names stand between slashes. -/
theorem Manifest.written_of_readSolution {f : Files} {path : Path} {solution : SolutionManifest}
    (hf : f.Written) (hpath : path.Written) (h : readSolution f path = .ok solution) :
    ∀ member ∈ solution.members, member.path.Written := by
  unfold readSolution at h
  obtain ⟨absolute, hresolve, h⟩ := exists_of_bind_eq_ok h
  obtain ⟨content, -, h⟩ := exists_of_bind_eq_ok h
  have habsolute := written_of_resolve hf hpath hresolve
  dsimp only at h
  split at h
  · cases h
  · obtain ⟨members, hmembers, h⟩ := exists_of_bind_eq_ok h
    obtain rfl := Except.ok.inj h
    intro member hmember
    obtain ⟨read, hread, rfl⟩ := List.mem_filterMap.mp hmember
    obtain ⟨e, -, he⟩ := mem_of_mapM_eq_ok hmembers hread
    exact written_of_member? hf habsolute.parent he

namespace Batch

open Analysis

variable {s : Setting} {path p directory : Path} {m : ProjectManifest}
  {outside : Progress → Progress → Prop} {run : Schedule.Run FileResult}

/-! ## Files that are taken -/

/-- **A file that is taken**: it has an analyzer, which does not find fault with support. -/
def Taken (s : Setting) (p : Path) : Prop :=
  ∃ a, s.registry.resolve p.text = .ok a ∧ ∀ moment text shown cause,
    a.analyse s.grammars.parse moment p.text text ≠ .error (.notSupported shown cause)

/-- **What is listed is taken.** -/
theorem taken_of_listed (hsmall : s.registry.Small)
    (h : Manifest.Listed s.registry.extensions p) : Taken s p := by
  have hsupported : s.registry.isSupported p.text = true := by
    rw [Registry.isSupported_iff hsmall, Path.ofText_text h.root h.written]
    exact h.suffix
  obtain ⟨a, -, hresolve, hclaims⟩ := Registry.exists_resolve hsupported
  refine ⟨a, hresolve, fun moment text shown cause hfault => ?_⟩
  rw [analyse_eq_notSupported_iff (parse_failsWith s.grammars), hclaims] at hfault
  cases hfault.1

/-- **What is found below a directory** is listed. -/
theorem listed_of_mem_discover (hfiles : s.files.Written) (hpath : path.Written)
    (hresolve : Manifest.resolve s.files path = .ok directory)
    (hp : p ∈ s.files.discover directory s.registry.extensions s.options.excluded) :
    Manifest.Listed s.registry.extensions p := by
  have hdirectory := Manifest.written_of_resolve hfiles hpath hresolve
  obtain ⟨e, way, -, -, hway, hsuffix, -⟩ := Files.mem_discover.mp hp
  have hroot : p.root = directory.root := hway ▸ rfl
  exact ⟨hroot.trans (Manifest.settled_of_resolve hresolve).root,
    hfiles.of_mem_discover hdirectory hp, hsuffix⟩

/-! ## Failures of support -/

/-- **No failure of support** is among some outcomes. -/
def Supported (outcomes : List FileOutcome) : Prop :=
  ∀ failure, .failed failure ∈ outcomes → failure.errorType ≠ "NotSupportedError"

/-- **No failure of support** is in a report. -/
def Report.Supported : Report → Prop
  | .project report => ∀ failure ∈ report.failures, failure.errorType ≠ "NotSupportedError"
  | .solution report => ∀ project ∈ report.projects, ∀ failure ∈ project.failures,
      failure.errorType ≠ "NotSupportedError"

/-- What becomes of a file that is taken. -/
theorem errorType_of_taken {failure : FileFailure} (htaken : Taken s p)
    (h : outcome s p = .ok (.failed failure)) : failure.errorType ≠ "NotSupportedError" := by
  obtain ⟨a, hresolve, -⟩ := htaken
  unfold outcome at h
  rw [hresolve] at h
  dsimp only at h
  split at h
  · cases h
  · obtain rfl := FileOutcome.failed.inj (Except.ok.inj h)
    exact (show "IOError" ≠ "NotSupportedError" by decide)
  · split at h
    · obtain rfl := FileOutcome.failed.inj (Except.ok.inj h)
      exact (show "ParseError" ≠ "NotSupportedError" by decide)
    · cases h
    · cases h

/-- **A run over files that are taken**, whatever else happens meanwhile. -/
theorem RunOf.supported {paths : List Path} (h : RunOf s outside paths run)
    (htaken : ∀ p ∈ paths, Taken s p) : Batch.Supported (outcomes run.ordered) := by
  obtain ⟨os, hos, hordered, -⟩ := h.exists_outcomes
  rw [hordered, outcomes_resultsFrom hos.length_le]
  intro failure hfailure
  obtain ⟨p, hp, ho⟩ := exists_of_mem_right hos hfailure
  exact errorType_of_taken (htaken p (List.mem_of_mem_take hp)) ho

/-- The report on files without failures of support. -/
theorem supported_ofOutcomes {os : List FileOutcome} (h : Batch.Supported os)
    {name title : String} {dependencies : List String} {now : Moment} {cancelled : Bool} :
    Report.Supported (.project (.ofOutcomes name title dependencies now os cancelled)) := by
  intro failure hfailure
  obtain ⟨o, ho, hfailed⟩ := List.mem_filterMap.mp hfailure
  cases o with
  | analysed report => cases hfailed
  | failed failure' => exact h failure (Option.some.inj hfailed ▸ ho)

/-- **Results that are dealt out** to projects are results. -/
theorem supported_dealOut {now : Moment} {results : List FileResult}
    {manifests : List ProjectManifest} (h : Batch.Supported (outcomes results)) :
    ∀ project ∈ dealOut now results manifests, Report.Supported (.project project) := by
  intro project hproject
  obtain ⟨⟨m, owner⟩, -, rfl⟩ := List.mem_map.mp hproject
  refine supported_ofOutcomes fun failure hfailure => h failure ?_
  obtain ⟨r, hr, hfailed⟩ := List.mem_map.mp hfailure
  exact List.mem_map.mpr ⟨r, (List.mem_filter.mp hr).1, hfailed⟩

/-! ## Reports -/

/-- An entry of the journal, and what is done behind it. -/
theorem run_tell_bind {α : Type} {e : Journal.Entry} {next : Unit → Work α} {q : Progress} :
    (tell e >>= next).run q = (next ()).run { q with entries := q.entries ++ [e] } :=
  run_bind rfl

/-- What is made of a run over files is made of one that may return. -/
theorem exists_runOf {α : Type} {paths : List Path} {make : Schedule.Run FileResult → α} {made : α}
    {q : Progress} (h : ((runFiles s paths).run q).1.map make = .ok made) :
    ∃ run, RunOf s (fun _ _ => False) paths run ∧ made = make run := by
  obtain ⟨run, hrun, rfl⟩ := exists_of_map_eq_ok h
  exact ⟨run, runOf_of_runFiles _ hrun, rfl⟩

/-- **The report on a project** is made of a run over the files of its manifest. -/
theorem exists_runOf_project {progress : Progress} {report : ProjectReport}
    (h : ((analyseProject s path).run progress).1 = .ok report) :
    ∃ m run, readProject s path = .ok m ∧ RunOf s (fun _ _ => False) m.files run
      ∧ report = projectReport s.now m run.ordered run.cancelled := by
  unfold analyseProject at h
  cases hread : readProject s path with
  | error fault => rw [hread] at h; cases h
  | ok m =>
    rw [hread] at h
    dsimp only at h
    rw [run_tell_bind, run_tell_bind, run_bind_pure] at h
    obtain ⟨run, hrun, rfl⟩ := exists_runOf h
    exact ⟨m, run, rfl, hrun, rfl⟩

/-- **The report on the sources below a directory** is made of a run over them. -/
theorem exists_runOf_sources {progress : Progress} {report : ProjectReport}
    (h : ((analyseSources s directory).run progress).1 = .ok report) :
    ∃ run, RunOf s (fun _ _ => False)
        (s.files.discover directory s.registry.extensions s.options.excluded) run
      ∧ report = .ofOutcomes directory.text directory.name [] s.now (outcomes run.ordered)
        run.cancelled := by
  unfold analyseSources at h
  rw [run_tell_bind, run_bind_pure] at h
  exact exists_runOf h

/-- **The report on a solution** is made of a run over the files of its members. -/
theorem exists_runOf_solution {progress : Progress} {report : SolutionReport}
    (h : ((analyseSolution s path).run progress).1 = .ok report) :
    ∃ solution run, Manifest.readSolution s.files path = .ok solution
      ∧ RunOf s (fun _ _ => False) (filesOf s solution) run
      ∧ report = solutionReport s solution run := by
  cases hsolution : Manifest.readSolution s.files path with
  | error fault =>
    unfold analyseSolution at h
    rw [hsolution] at h
    cases h
  | ok solution =>
    obtain ⟨q, hq⟩ := analyseSolution_run hsolution (readOrRefused_of_run hsolution h) progress
    rw [hq] at h
    obtain ⟨run, hrun, rfl⟩ := exists_runOf h
    exact ⟨solution, run, rfl, hrun, rfl⟩

/-- The files directly in a directory. -/
theorem written_of_mem_filesIn (hfiles : s.files.Written) (hdirectory : directory.Written)
    {files : List Path} (h : filesIn s directory = .ok files) : ∀ p ∈ files, p.Written := by
  unfold filesIn at h
  cases hfind : s.files.find? directory with
  | error trouble => rw [hfind] at h; cases h
  | ok e =>
    rw [hfind] at h
    cases e with
    | file content => cases h
    | directory es =>
      obtain rfl := Except.ok.inj h
      intro p hp
      obtain ⟨n, hn, rfl⟩ := List.mem_map.mp hp
      obtain ⟨named, hnamed, rfl⟩ := List.mem_map.mp (List.mem_mergeSort.mp hn)
      have hpart := (hfiles.of_find? hfind).isPart (List.mem_filter.mp hnamed).1
      exact hdirectory.inner (List.forall_mem_singleton.mpr hpart)

section

variable (hsmall : s.registry.Small) (hfiles : s.files.Written)
include hsmall hfiles

theorem taken_of_readProject (hpath : path.Written) (hread : readProject s path = .ok m) :
    ∀ p ∈ m.files, Taken s p := by
  intro p hp
  cases hobstacle : s.obstacle path with
  | some fault => rw [readProject, hobstacle] at hread; cases hread
  | none =>
    rw [readProject_of_clear hobstacle] at hread
    exact taken_of_listed hsmall (Manifest.readProject_listed hfiles hpath hread p hp)

theorem analyseProject_supported (hpath : path.Written) {progress : Progress}
    {report : ProjectReport} (h : ((analyseProject s path).run progress).1 = .ok report) :
    Report.Supported (.project report) := by
  obtain ⟨m, run, hread, hrun, rfl⟩ := exists_runOf_project h
  exact supported_ofOutcomes (hrun.supported (taken_of_readProject hsmall hfiles hpath hread))

theorem analyseSolution_supported (hpath : path.Written) {progress : Progress}
    {report : SolutionReport} (h : ((analyseSolution s path).run progress).1 = .ok report) :
    Report.Supported (.solution report) := by
  obtain ⟨solution, run, hsolution, hrun, rfl⟩ := exists_runOf_solution h
  refine supported_dealOut (hrun.supported fun p hp => ?_)
  obtain ⟨m, hm, hp⟩ := List.mem_flatMap.mp hp
  obtain ⟨member, hmember, hread⟩ := List.mem_filterMap.mp hm
  have hwritten := Manifest.written_of_readSolution hfiles hpath hsolution member hmember
  exact taken_of_readProject hsmall hfiles hwritten (manifest?_eq_some.mp hread) p hp

theorem analyseDirectory_supported (hpath : path.Written) {progress : Progress} {report : Report}
    (h : ((analyseDirectory s path).run progress).1 = .ok report) : report.Supported := by
  unfold analyseDirectory at h
  cases hresolve : Manifest.resolve s.files path with
  | error fault => rw [hresolve] at h; cases h
  | ok directory =>
    rw [hresolve] at h
    dsimp only at h
    cases hin : filesIn s directory with
    | error fault => rw [hin] at h; cases h
    | ok files =>
      have hdirectory := Manifest.written_of_resolve hfiles hpath hresolve
      have hwritten := written_of_mem_filesIn hfiles hdirectory hin
      rw [hin] at h
      dsimp only at h
      split at h
      · next p hp =>
        rw [run_tell_bind, run_bind_pure] at h
        obtain ⟨made, hmade, rfl⟩ := exists_of_map_eq_ok h
        exact analyseSolution_supported hsmall hfiles
          (hwritten p (List.mem_of_find?_eq_some hp)) hmade
      · next p _ hp =>
        rw [run_tell_bind, run_bind_pure] at h
        obtain ⟨made, hmade, rfl⟩ := exists_of_map_eq_ok h
        exact analyseProject_supported hsmall hfiles
          (hwritten p (List.mem_of_find?_eq_some hp)) hmade
      · rw [run_bind_pure] at h
        obtain ⟨made, hmade, rfl⟩ := exists_of_map_eq_ok h
        obtain ⟨run, hrun, rfl⟩ := exists_runOf_sources hmade
        exact supported_ofOutcomes (hrun.supported fun p hp =>
          taken_of_listed hsmall (listed_of_mem_discover hfiles hpath hresolve hp))

/-- **What is discovered is analysed.** Every file that a manifest lists, and every file that is
found below a directory, has an analyzer that does not find fault with support. So no report on a
project, on a solution or on a directory has a failure of support, and neither has any run over
such files, whatever else happens meanwhile. -/
theorem discovered_taken (hpath : path.Written) :
    (∀ m, readProject s path = .ok m → ∀ p ∈ m.files, Taken s p)
      ∧ (∀ directory, Manifest.resolve s.files path = .ok directory →
        ∀ p ∈ s.files.discover directory s.registry.extensions s.options.excluded, Taken s p)
      ∧ (∀ progress report, ((analyseProject s path).run progress).1 = .ok report →
        Report.Supported (.project report))
      ∧ (∀ progress report, ((analyseSolution s path).run progress).1 = .ok report →
        Report.Supported (.solution report))
      ∧ (∀ progress report, ((analyseDirectory s path).run progress).1 = .ok report →
        report.Supported)
      ∧ ∀ outside paths run, (∀ p ∈ paths, Taken s p) → RunOf s outside paths run →
        Batch.Supported (outcomes run.ordered) :=
  ⟨fun _ hread => taken_of_readProject hsmall hfiles hpath hread,
    fun _ hresolve _ hp => taken_of_listed hsmall (listed_of_mem_discover hfiles hpath hresolve hp),
    fun _ _ h => analyseProject_supported hsmall hfiles hpath h,
    fun _ _ h => analyseSolution_supported hsmall hfiles hpath h,
    fun _ _ h => analyseDirectory_supported hsmall hfiles hpath h,
    fun _ _ _ htaken hrun => hrun.supported htaken⟩

end

/-! ### A file of two projects -/

theorem small_sharedSetting : sharedSetting.registry.Small := by
  intro a ha x hx
  obtain rfl := List.mem_singleton.mp ha
  obtain rfl := List.mem_singleton.mp hx
  decide

theorem written_sharedFiles : sharedFiles.Written where
  root := by
    refine .directory ?_ ?_
    · have hnames : ∀ n ∈ ["s.sln", "p.proj", "r.proj", "b.cs"], Path.IsPart n := by decide
      exact fun e he => hnames e.1 (List.mem_map.mpr ⟨e, he, rfl⟩)
    · simp only [List.mem_cons, List.not_mem_nil, or_false, forall_eq_or_imp, forall_eq]
      exact ⟨.file _, .file _, .file _, .file _⟩
  here := fun _ hn => absurd hn List.not_mem_nil

/-- The file that the projects of a solution share is taken, and the solution is reported on
without a failure of support. -/
theorem discovered_taken_shared : sharedSetting.registry.Small ∧ sharedSetting.files.Written
    ∧ Taken sharedSetting ⟨"/", ["b.cs"]⟩
    ∧ ∃ report, ((analyseSolution sharedSetting ⟨"/", ["s.sln"]⟩).run {}).1 = .ok report
      ∧ Report.Supported (.solution report) := by
  have hsmall := small_sharedSetting
  have hfiles : sharedSetting.files.Written := written_sharedFiles
  have hproject := discovered_taken hsmall hfiles
    (show Path.Written ⟨"/", ["p.proj"]⟩ by decide)
  have hsolution := discovered_taken hsmall hfiles
    (show Path.Written ⟨"/", ["s.sln"]⟩ by decide)
  refine ⟨hsmall, hfiles, hproject.1 _ readProject_p _ List.mem_cons_self, ?_⟩
  obtain ⟨solution, hread, hmembers⟩ := exists_readSolution_shared
  obtain ⟨q, hq⟩ := analyseSolution_run hread (hmembers ▸ readOrRefused_shared) {}
  have hfilesOf : filesOf sharedSetting solution = [⟨"/", ["b.cs"]⟩, ⟨"/", ["b.cs"]⟩] := by
    rw [filesOf, manifestsOf, hmembers, manifests_shared]
    rfl
  have houtcomes : ∀ p ∈ filesOf sharedSetting solution, ∃ o, outcome sharedSetting p = .ok o := by
    intro p hp
    rw [hfilesOf, List.mem_pair, or_self] at hp
    exact hp ▸ outcome_shared
  obtain ⟨run, hrun⟩ := exists_runFiles (fun _ => by decide) houtcomes q
  rw [hrun] at hq
  exact ⟨_, hq, hsolution.2.2.2.1 _ _ hq⟩

end Batch

end SyntaxForest
