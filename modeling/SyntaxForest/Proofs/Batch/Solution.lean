import Mathlib
import SyntaxForest.Proofs.Batch.Dealing

/-!
# A solution is the sum of its projects

All files of a solution are run as one batch, under one limit, and their results are dealt
out again. Nothing of this is seen in the reports: each project of the report on a solution
is the report on that project alone, however its files are run then, and the members that
are missing are those whose manifests are refused (`analyseSolution_projects`).
-/

namespace SyntaxForest

/-- The report as it is when it is made at another moment. -/
def ProjectReport.restamp (now : Moment) (p : ProjectReport) : ProjectReport :=
  { p with generatedAt := now, files := p.files.map fun r => { r with generatedAt := now } }

namespace Batch

open Analysis

variable {s s' : Setting} {path : Path} {m : ProjectManifest} {outcomes : List FileOutcome}

/-! ## Projects -/

/-- **The report on a project** has the outcomes of the files in its manifest. -/
theorem analyseProject_comesTo (hopen : s.Open) (hread : readProject s path = .ok m)
    (h : Outcomes s m.files outcomes) :
    ComesTo (analyseProject s path) (.ok (wholeReport s.now m outcomes)) := by
  unfold analyseProject
  rw [hread]
  refine .bind (tell_comesTo _) (.bind (tell_comesTo _) ((runFiles_brings hopen h).bind ?_))
  rintro run ⟨hordered, hcancelled⟩
  have hreport : projectReport s.now m run.ordered run.cancelled
      = wholeReport s.now m outcomes := by
    rw [hordered, hcancelled, projectReport, outcomes_resultsFrom (Nat.le_of_eq h.length_eq.symm)]
    rfl
  rw [hreport]
  exact .pure _

theorem readProject_eq (h : s.Alike s') (path : Path) :
    readProject s' path = readProject s path := by
  unfold readProject
  rw [h.files, h.registry, h.excluded, h.obstacle]

/-- Where nothing of the system is in the way, the manifest is read. -/
theorem readProject_of_clear (h : s.obstacle path = none) : readProject s path
    = Manifest.readProject s.files s.registry.extensions s.options.excluded path := by
  unfold readProject
  rw [h]

theorem Outcomes.restamp (h : s.Alike s') (hopen : s.Open) (hopen' : s'.Open) {paths : List Path}
    (ho : Outcomes s paths outcomes) :
    Outcomes s' paths (outcomes.map (restampOutcome s'.now)) := by
  unfold Outcomes
  rw [List.forall₂_map_right_iff]
  exact List.Forall₂.imp (fun _ _ hpath => analysePath_restamp h hopen hopen' hpath) ho

theorem wholeReport_restamp (now now' : Moment) (m : ProjectManifest)
    (outcomes : List FileOutcome) :
    wholeReport now' m (outcomes.map (restampOutcome now'))
      = (wholeReport now m outcomes).restamp now' := by
  have hfiles : (outcomes.map (restampOutcome now')).filterMap FileOutcome.report?
      = (outcomes.filterMap FileOutcome.report?).map fun r => { r with generatedAt := now' } := by
    rw [List.filterMap_map, List.map_filterMap]
    congr 1
    funext o
    cases o <;> rfl
  have hfailures : (outcomes.map (restampOutcome now')).filterMap FileOutcome.failure?
      = outcomes.filterMap FileOutcome.failure? := by
    rw [List.filterMap_map]
    congr 1
    funext o
    cases o <;> rfl
  unfold wholeReport ProjectReport.ofOutcomes ProjectReport.restamp
  dsimp only
  rw [hfiles, hfailures, List.flatMap_map, List.flatMap_map]

/-! ## Members -/

/-- What a member whose manifest is refused leaves in the report. -/
def refusal? (s : Setting) (member : SolutionMember) : Option ProjectFailure :=
  match readProject s member.path with
  | .error f@(.refused ..) => some ⟨member.path.text, f.message⟩
  | _ => none

/-- The manifest of a member, if it reads. -/
def manifest? (s : Setting) (member : SolutionMember) : Option ProjectManifest :=
  (readProject s member.path).toOption

theorem manifest?_eq_some {member : SolutionMember} :
    manifest? s member = some m ↔ readProject s member.path = .ok m := by
  rw [manifest?]
  cases readProject s member.path with
  | ok m' => exact ⟨fun h => congrArg _ (Option.some.inj h), fun h => congrArg _ (Except.ok.inj h)⟩
  | error _ => exact ⟨nofun, nofun⟩

/-- Every manifest reads or is refused. -/
def ReadOrRefused (s : Setting) (members : List SolutionMember) : Prop :=
  ∀ member ∈ members, ∀ fault, readProject s member.path = .error fault →
    ∃ path reason, fault = .refused path reason

/-- What reading a member ends with, if its manifest neither reads nor is refused. -/
def escape? (s : Setting) (member : SolutionMember) : Option Manifest.Fault :=
  match readProject s member.path with
  | .ok _ => none
  | .error (.refused ..) => none
  | .error fault => some fault

theorem escape?_eq_none_iff {member : SolutionMember} :
    escape? s member = none ↔ ∀ fault, readProject s member.path = .error fault →
      ∃ path reason, fault = .refused path reason := by
  rw [escape?]
  cases readProject s member.path with
  | ok _ => exact ⟨fun _ _ hfault => (nomatch hfault), fun _ => rfl⟩
  | error fault =>
    cases fault with
    | refused path reason =>
      exact ⟨fun _ _ hfault => ⟨path, reason, (Except.error.inj hfault).symm⟩, fun _ => rfl⟩
    | _ =>
      refine ⟨fun hnone => (nomatch hnone), fun hread => ?_⟩
      obtain ⟨_, _, hfault⟩ := hread _ rfl
      cases hfault

theorem readOrRefused_iff {members : List SolutionMember} :
    ReadOrRefused s members ↔ members.findSome? (escape? s) = none := by
  rw [List.findSome?_eq_none_iff]
  exact forall₂_congr fun _ _ => escape?_eq_none_iff.symm

/-- **The members of a solution** go where their manifests say, in their order, until one of
them neither reads nor is refused. -/
theorem readMembers_comesToIn {I : Progress → Prop} (hI : Indifferent I)
    (members : List SolutionMember) :
    ComesToIn I (readMembers s members) (match members.findSome? (escape? s) with
      | some fault => .error (.manifest fault)
      | none => .ok (members.filterMap (manifest? s), members.filterMap (refusal? s))) := by
  induction members with
  | nil => exact .pure _
  | cons member rest ih =>
    -- what becomes of this member is entered before what the others come to
    have hrest : ∀ enter : List ProjectManifest × List ProjectFailure
          → List ProjectManifest × List ProjectFailure,
        ComesToIn I (readMembers s rest >>= fun read => pure (enter read))
          (match rest.findSome? (escape? s) with
            | some fault => .error (.manifest fault)
            | none => .ok (enter (rest.filterMap (manifest? s), rest.filterMap (refusal? s)))) := by
      intro enter
      cases hescape : rest.findSome? (escape? s) with
      | none => rw [hescape] at ih; exact .bind ih (.pure _)
      | some fault => rw [hescape] at ih; exact .bind_error ih
    unfold readMembers
    rw [List.findSome?_cons]
    cases hread : readProject s member.path with
    | ok m =>
      have hmanifest : manifest? s member = some m := manifest?_eq_some.mpr hread
      have hrefusal : refusal? s member = none := by rw [refusal?, hread]
      have hescape : escape? s member = none := by rw [escape?, hread]
      rw [hescape, List.filterMap_cons_some hmanifest, List.filterMap_cons_none hrefusal]
      exact .bind (tell_comesToIn hI _) (hrest fun read => (m :: read.1, read.2))
    | error fault =>
      have hmanifest : manifest? s member = none := by rw [manifest?, hread]; rfl
      rw [List.filterMap_cons_none hmanifest]
      cases fault with
      | refused p reason =>
        have hrefusal : refusal? s member
            = some ⟨member.path.text, Manifest.Fault.message (.refused p reason)⟩ := by
          rw [refusal?, hread]
        have hescape : escape? s member = none := by rw [escape?, hread]
        rw [hescape, List.filterMap_cons_some hrefusal]
        exact .bind (tell_comesToIn hI _) (hrest fun read => (read.1, _ :: read.2))
      | _ =>
        rw [escape?, hread]
        exact .throw _

theorem readMembers_comesToIn_ok {I : Progress → Prop} (hI : Indifferent I)
    {members : List SolutionMember} (h : ReadOrRefused s members) :
    ComesToIn I (readMembers s members)
      (.ok (members.filterMap (manifest? s), members.filterMap (refusal? s))) := by
  have hread := readMembers_comesToIn (s := s) hI members
  rw [readOrRefused_iff.mp h] at hread
  exact hread

/-! ## Solutions -/

/-- **The report on a member of a solution**, as it is without the others. -/
structure IsOwnReport (s : Setting) (member : SolutionMember) (project : ProjectReport) :
    Prop where
  /-- The project alone has the same report but for the stamps, however and whenever its
  files are run. -/
  alone : ∀ s' : Setting, s.Alike s' → s'.Open →
    ComesTo (analyseProject s' member.path) (.ok (project.restamp s'.now))
  /-- Its files are those of its manifest, in their order. -/
  own : ∃ m outcomes, readProject s member.path = .ok m ∧ Outcomes s m.files outcomes
    ∧ project = wholeReport s.now m outcomes

theorem isOwnReport_wholeReport (hopen : s.Open) {member : SolutionMember}
    (hread : readProject s member.path = .ok m) (h : Outcomes s m.files outcomes) :
    IsOwnReport s member (wholeReport s.now m outcomes) := by
  refine ⟨fun s' halike hopen' => ?_, m, outcomes, hread, h, rfl⟩
  rw [← wholeReport_restamp]
  exact analyseProject_comesTo hopen' (readProject_eq halike _ ▸ hread)
    (h.restamp halike hopen hopen')

/-- The manifests that read are those of the members whose manifests do. -/
theorem forall₂_manifests (members : List SolutionMember) :
    List.Forall₂ (fun member m => readProject s member.path = .ok m)
      (members.filter fun member => (readProject s member.path).isOk)
      (members.filterMap (manifest? s)) := by
  induction members with
  | nil => exact .nil
  | cons member rest ih =>
    cases hread : readProject s member.path with
    | ok m =>
      rw [List.filter_cons_of_pos (by rw [hread]; rfl),
        List.filterMap_cons_some (b := m) (manifest?_eq_some.mpr hread)]
      exact .cons hread ih
    | error fault =>
      rw [List.filter_cons_of_neg (by rw [hread]; exact Bool.false_ne_true),
        List.filterMap_cons_none (by rw [manifest?, hread]; rfl)]
      exact ih

theorem exists_forall₂ {α β : Type} {R : α → β → Prop} {as : List α} (h : ∀ a ∈ as, ∃ b, R a b) :
    ∃ bs, List.Forall₂ R as bs := by
  induction as with
  | nil => exact ⟨[], .nil⟩
  | cons a rest ih =>
    obtain ⟨b, hb⟩ := h a List.mem_cons_self
    obtain ⟨bs, hbs⟩ := ih fun a' hin => h a' (List.mem_cons_of_mem _ hin)
    exact ⟨b :: bs, .cons hb hbs⟩

/-- Files of several projects have their outcomes in a row. -/
theorem outcomes_flatten {manifests : List ProjectManifest} {outcomes : List (List FileOutcome)}
    (h : List.Forall₂ (fun m os => Outcomes s m.files os) manifests outcomes) :
    Outcomes s (manifests.flatMap (·.files)) outcomes.flatten := by
  induction h with
  | nil => exact .nil
  | cons hm _ ih =>
    rw [List.flatMap_cons, List.flatten_cons]
    exact List.rel_append hm ih

theorem forall₂_ownReports (hopen : s.Open) {members : List SolutionMember}
    {manifests : List ProjectManifest} {outcomes : List (List FileOutcome)}
    (hread : List.Forall₂ (fun member m => readProject s member.path = .ok m) members manifests)
    (h : List.Forall₂ (fun m os => Outcomes s m.files os) manifests outcomes) :
    List.Forall₂ (IsOwnReport s) members (List.zipWith (wholeReport s.now) manifests outcomes) := by
  induction hread generalizing outcomes with
  | nil => exact .nil
  | cons hmember _ ih =>
    cases h with
    | cons hfiles hrest => exact .cons (isOwnReport_wholeReport hopen hmember hfiles) (ih hrest)

/-- **A solution is the sum of its projects.** Its report has, in the order of the solution,
the reports on the members whose manifests read, each as it is for that project alone, and
the members whose manifests are refused. -/
theorem analyseSolution_projects (hopen : s.Open) {solution : SolutionManifest}
    (hsolution : Manifest.readSolution s.files path = .ok solution)
    (hmembers : ReadOrRefused s solution.members)
    (hfiles : ∀ member ∈ solution.members, ∀ m, readProject s member.path = .ok m →
      ∀ file ∈ m.files, ∃ o, ComesTo (analysePath s file) (.ok o)) :
    ∃ report, ComesTo (analyseSolution s path) (.ok report)
      ∧ List.Forall₂ (IsOwnReport s)
          (solution.members.filter fun member => (readProject s member.path).isOk)
          report.projects
      ∧ report.failures = solution.members.filterMap (refusal? s)
      ∧ report.cancelled = false := by
  have hmanifests := forall₂_manifests (s := s) solution.members
  obtain ⟨outcomes, houtcomes⟩ : ∃ outcomes, List.Forall₂ (fun m os => Outcomes s m.files os)
      (solution.members.filterMap (manifest? s)) outcomes := by
    refine exists_forall₂ fun m hm => ?_
    obtain ⟨member, hmember, hmanifest⟩ := List.mem_filterMap.mp hm
    exact exists_forall₂ (hfiles member hmember m (manifest?_eq_some.mp hmanifest))
  have hlengths : List.Forall₂ (fun (m : ProjectManifest) os => m.files.length = os.length)
      (solution.members.filterMap (manifest? s)) outcomes :=
    houtcomes.imp fun _ _ h => h.length_eq
  let report : SolutionReport :=
    { solutionPath := solution.path.text
      solutionName := solution.name
      generatedAt := s.now
      projects := List.zipWith (wholeReport s.now)
        (solution.members.filterMap (manifest? s)) outcomes
      failures := solution.members.filterMap (refusal? s)
      formatVersion := solution.formatVersion
      visualStudioVersion := solution.studioVersion
      cancelled := false }
  refine ⟨report, ?_, forall₂_ownReports hopen hmanifests houtcomes, rfl, rfl⟩
  unfold analyseSolution
  rw [hsolution]
  refine .bind (readMembers_comesToIn_ok Progress.calm_indifferent hmembers) (.bind (tell_comesTo _)
    ((runFiles_brings hopen (outcomes_flatten houtcomes)).bind ?_))
  rintro run ⟨hordered, hcancelled⟩
  rw [hordered, hcancelled, dealOut_resultsFrom s.now hlengths]
  exact .pure _

/-! ### Two projects that share a file -/

/-- A project that has every source below its directory. -/
def wholeDirectory : Bytes := Bytes.ofText "<P Sdk=\"x\"/>"

/-- A solution of three members in one directory, of which the second is missing. -/
def sharedFiles : Files where
  root := .directory
    [("s.sln", .file (Bytes.ofText
        ("Project(\"\x7bA\x7d\")=\"P\",\"p.proj\",\"\x7bP\x7d\"\n"
          ++ "Project(\"\x7bA\x7d\")=\"Q\",\"q.proj\",\"\x7bQ\x7d\"\n"
          ++ "Project(\"\x7bA\x7d\")=\"R\",\"r.proj\",\"\x7bR\x7d\"\n"))),
      ("p.proj", .file wholeDirectory),
      ("r.proj", .file wholeDirectory),
      ("b.cs", .file #[])]
  here := ⟨"/", []⟩

/-- Its files are run two at a time, and measured. -/
def sharedSetting : Setting where
  files := sharedFiles
  grammars := ⟨fun _ => none, fun _ _ => none⟩
  registry := ⟨[⟨⟨"csharp", [".cs"], [], "", "", ""⟩, .csharp, .measure, .half⟩], true⟩
  options := ⟨.concurrent, 2, []⟩
  now := default

theorem parse_wholeDirectory :
    Xml.parse wholeDirectory.toList = .ok ⟨"P", [("Sdk", "x")], "", []⟩ := by cbv

theorem readXml_wholeDirectory {name : String}
    (hread : sharedFiles.read ⟨"/", [name]⟩ = .ok wholeDirectory) :
    Manifest.readXml sharedFiles ⟨"/", [name]⟩ = .ok ⟨"P", [("Sdk", "x")], "", []⟩ := by
  unfold Manifest.readXml
  rw [hread]
  show (Xml.parse wholeDirectory.toList).mapError _ = _
  rw [parse_wholeDirectory]
  rfl

theorem eq_ok_of_toOption {ε α : Type} {x : Except ε α} {a : α} (h : x.toOption = some a) :
    x = .ok a := by
  cases x with
  | ok b => exact congrArg _ (Option.some.inj h)
  | error _ => cases h

theorem readProject_msbuild {root : Xml.Element} {files : List Path}
    (hclear : s.obstacle path = none)
    (hresolve : Manifest.resolve s.files path = .ok path)
    (hxml : Manifest.readXml s.files path = .ok root)
    (hkind : Manifest.kind? path = some .msbuild)
    (hsources : Manifest.MSBuild.sources s.files path.parent
      (s.registry.extensions.map Text.lower) s.options.excluded root = .ok files) :
    readProject s path
      = .ok ⟨path, path.stem, .msbuild, files, Manifest.MSBuild.dependencies root⟩ := by
  rw [readProject_of_clear hclear]
  unfold Manifest.readProject
  rw [hresolve]
  dsimp only [bind, Except.bind]
  rw [hxml]
  dsimp only
  rw [hkind]
  dsimp only
  rw [hsources]
  rfl

theorem readProject_wholeDirectory {name : String}
    (hresolve : (Manifest.resolve sharedFiles ⟨"/", [name]⟩).toOption = some ⟨"/", [name]⟩)
    (hkind : Manifest.kind? ⟨"/", [name]⟩ = some .msbuild)
    (hread : sharedFiles.read ⟨"/", [name]⟩ = .ok wholeDirectory) :
    readProject sharedSetting ⟨"/", [name]⟩
      = .ok ⟨⟨"/", [name]⟩, Path.stem ⟨"/", [name]⟩, .msbuild, [⟨"/", ["b.cs"]⟩], []⟩ := by
  have hsources : (Manifest.MSBuild.sources sharedFiles ⟨"/", []⟩ [".cs"] []
      ⟨"P", [("Sdk", "x")], "", []⟩).toOption = some [⟨"/", ["b.cs"]⟩] := by decide +kernel
  have hsupported : sharedSetting.registry.extensions.map Text.lower = [".cs"] := by
    decide +kernel
  refine readProject_msbuild (s := sharedSetting) rfl (eq_ok_of_toOption hresolve)
    (readXml_wholeDirectory hread) hkind ?_
  rw [hsupported]
  exact eq_ok_of_toOption hsources

theorem readProject_of_missing {fault : FileFault} (hclear : s.obstacle path = none)
    (hresolve : Manifest.resolve s.files path = .ok path)
    (hread : s.files.read path = .error fault) :
    readProject s path = .error (.refused path (.file fault)) := by
  rw [readProject_of_clear hclear]
  unfold Manifest.readProject Manifest.readXml
  rw [hresolve]
  dsimp only [bind, Except.bind]
  rw [hread]

theorem readProject_p : readProject sharedSetting ⟨"/", ["p.proj"]⟩
    = .ok ⟨⟨"/", ["p.proj"]⟩, "p", .msbuild, [⟨"/", ["b.cs"]⟩], []⟩ :=
  readProject_wholeDirectory (by rfl) (by rfl) (by rfl)

theorem readProject_q : readProject sharedSetting ⟨"/", ["q.proj"]⟩
    = .error (.refused ⟨"/", ["q.proj"]⟩ (.file ⟨⟨"/", ["q.proj"]⟩, .missing⟩)) :=
  readProject_of_missing rfl (eq_ok_of_toOption (by rfl)) (by rfl)

theorem readProject_r : readProject sharedSetting ⟨"/", ["r.proj"]⟩
    = .ok ⟨⟨"/", ["r.proj"]⟩, "r", .msbuild, [⟨"/", ["b.cs"]⟩], []⟩ :=
  readProject_wholeDirectory (by rfl) (by rfl) (by rfl)

/-- The members of the solution. -/
def sharedMembers : List SolutionMember :=
  [⟨"P", ⟨"/", ["p.proj"]⟩, "A", "P"⟩, ⟨"Q", ⟨"/", ["q.proj"]⟩, "A", "Q"⟩,
    ⟨"R", ⟨"/", ["r.proj"]⟩, "A", "R"⟩]

theorem exists_readSolution_shared : ∃ solution,
    Manifest.readSolution sharedSetting.files ⟨"/", ["s.sln"]⟩ = .ok solution
      ∧ solution.members = sharedMembers := by
  have hread : ((Manifest.readSolution sharedFiles ⟨"/", ["s.sln"]⟩).toOption.map (·.members))
      = some sharedMembers := by decide +kernel
  obtain ⟨solution, hsolution, hmembers⟩ := Option.map_eq_some_iff.mp hread
  exact ⟨solution, eq_ok_of_toOption hsolution, hmembers⟩

theorem readOrRefused_shared : ReadOrRefused sharedSetting sharedMembers := by
  intro member hmember fault hfault
  simp only [sharedMembers, List.mem_cons, List.not_mem_nil, or_false] at hmember
  rcases hmember with rfl | rfl | rfl
  · rw [readProject_p] at hfault; cases hfault
  · rw [readProject_q] at hfault; cases hfault; exact ⟨_, _, rfl⟩
  · rw [readProject_r] at hfault; cases hfault

theorem manifests_shared : sharedMembers.filterMap (manifest? sharedSetting)
    = [⟨⟨"/", ["p.proj"]⟩, "p", .msbuild, [⟨"/", ["b.cs"]⟩], []⟩,
      ⟨⟨"/", ["r.proj"]⟩, "r", .msbuild, [⟨"/", ["b.cs"]⟩], []⟩] := by
  simp [sharedMembers, manifest?, readProject_p, readProject_q, readProject_r, Except.toOption]

theorem outcome_shared :
    ∃ o, outcome sharedSetting ⟨"/", ["b.cs"]⟩ = .ok o := by
  have hok : (outcome sharedSetting ⟨"/", ["b.cs"]⟩).isOk = true := by decide +kernel
  cases h : outcome sharedSetting ⟨"/", ["b.cs"]⟩ with
  | ok o => exact ⟨o, rfl⟩
  | error _ => rw [h] at hok; cases hok

/-- Both projects that read have the file that they share, and the member that is missing is
set aside. -/
theorem analyseSolution_projects_shared :
    ∃ report, ComesTo (analyseSolution sharedSetting ⟨"/", ["s.sln"]⟩) (.ok report)
      ∧ List.Forall₂ (IsOwnReport sharedSetting)
          [⟨"P", ⟨"/", ["p.proj"]⟩, "A", "P"⟩, ⟨"R", ⟨"/", ["r.proj"]⟩, "A", "R"⟩]
          report.projects
      ∧ report.failures.map (·.projectPath) = [Path.text ⟨"/", ["q.proj"]⟩] := by
  obtain ⟨solution, hsolution, hmembers⟩ := exists_readSolution_shared
  have hopen : sharedSetting.Open := ⟨by decide, fun _ => rfl⟩
  obtain ⟨report, hreport, hprojects, hfailures, -⟩ :=
    analyseSolution_projects hopen hsolution (hmembers ▸ readOrRefused_shared)
      (by
        intro member hmember m hm file hfile
        have hmanifest : m ∈ sharedMembers.filterMap (manifest? sharedSetting) :=
          List.mem_filterMap.mpr ⟨member, hmembers ▸ hmember, manifest?_eq_some.mpr hm⟩
        have hfiles : m.files = [⟨"/", ["b.cs"]⟩] := by
          rw [manifests_shared, List.mem_pair] at hmanifest
          rcases hmanifest with rfl | rfl <;> rfl
        rw [hfiles, List.mem_singleton] at hfile
        obtain ⟨o, ho⟩ := outcome_shared
        exact ⟨o, ho ▸ hfile ▸ analysePath_comesTo hopen _⟩)
  refine ⟨report, hreport, ?_, ?_⟩
  · rw [hmembers] at hprojects
    simpa [sharedMembers, readProject_p, readProject_q, readProject_r, Except.isOk,
      Except.toBool] using hprojects
  · rw [hfailures, hmembers]
    simp [sharedMembers, refusal?, readProject_p, readProject_q, readProject_r]

end Batch

end SyntaxForest
