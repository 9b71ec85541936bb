import Mathlib
import SyntaxForest.Proofs.Batch.Solution
import SyntaxForest.Proofs.Manifest.Stops

/-!
# The members of a solution

Before the files of a solution are run, the manifests of its members are read one after another.
A member whose manifest is refused is set aside and reported. A member whose manifest stops its
reader (`Manifest.Stops`), or cannot be read for something of the system that is no refusal, ends
the analysis, and nothing is reported of the others (`analyseSolution_members`).
-/

namespace SyntaxForest.Batch

open Analysis

variable {s : Setting} {path : Path} {solution : SolutionManifest}

/-! ## Reports -/

/-- The manifests of a solution that read. -/
def manifestsOf (s : Setting) (solution : SolutionManifest) : List ProjectManifest :=
  solution.members.filterMap (manifest? s)

/-- The files of a solution's projects, in a row. -/
def filesOf (s : Setting) (solution : SolutionManifest) : List Path :=
  (manifestsOf s solution).flatMap (·.files)

/-- The report that a run over the files of a solution makes. -/
def solutionReport (s : Setting) (solution : SolutionManifest)
    (run : Schedule.Run FileResult) : SolutionReport where
  solutionPath := solution.path.text
  solutionName := solution.name
  generatedAt := s.now
  projects := dealOut s.now run.ordered (manifestsOf s solution)
  failures := solution.members.filterMap (refusal? s)
  formatVersion := solution.formatVersion
  visualStudioVersion := solution.studioVersion
  cancelled := run.cancelled

/-- How the analysis of a solution goes on when its members have been read. -/
theorem analyseSolution_run (hsolution : Manifest.readSolution s.files path = .ok solution)
    (hmembers : ReadOrRefused s solution.members) (p : Progress) :
    ∃ q, ((analyseSolution s path).run p).1
      = ((runFiles s (filesOf s solution)).run q).1.map (solutionReport s solution) := by
  obtain ⟨p', hread, -⟩ := readMembers_comesToIn_ok indifferent_true hmembers p trivial
  unfold analyseSolution
  rw [hsolution]
  exact ⟨_, (congrArg Prod.fst ((run_bind hread).trans
    (run_bind (show (tell _).run p' = (.ok (), _) from rfl)))).trans run_bind_pure⟩

/-- How it ends if one of them stops its reader. -/
theorem analyseSolution_stopped (hsolution : Manifest.readSolution s.files path = .ok solution)
    {fault : Manifest.Fault} (hescape : solution.members.findSome? (escape? s) = some fault)
    (p : Progress) : ((analyseSolution s path).run p).1 = .error (.manifest fault) := by
  have hread := readMembers_comesToIn (s := s) indifferent_true solution.members
  rw [hescape] at hread
  obtain ⟨p', hread, -⟩ := hread p trivial
  unfold analyseSolution
  rw [hsolution]
  exact congrArg Prod.fst (run_bind_error hread)

/-- What is not read does not make a report. -/
theorem readOrRefused_of_run {report : SolutionReport}
    (hsolution : Manifest.readSolution s.files path = .ok solution) {p : Progress}
    (h : ((analyseSolution s path).run p).1 = .ok report) : ReadOrRefused s solution.members := by
  rw [readOrRefused_iff]
  cases hescape : solution.members.findSome? (escape? s) with
  | none => rfl
  | some fault => rw [analyseSolution_stopped hsolution hescape] at h; cases h

/-! ## Members -/

/-- **Members sorted by what their manifests do**: each goes either to the manifests or to the
failures, in the order of the members. -/
inductive Sorted (s : Setting) :
    List SolutionMember → List ProjectManifest → List ProjectFailure → Prop
  | nil : Sorted s [] [] []
  | read {member members m manifests failures} (hread : readProject s member.path = .ok m)
      (hrest : Sorted s members manifests failures) :
      Sorted s (member :: members) (m :: manifests) failures
  | refused {member members path reason manifests failures}
      (hread : readProject s member.path = .error (.refused path reason))
      (hrest : Sorted s members manifests failures) :
      Sorted s (member :: members) manifests
        (⟨member.path.text, Manifest.Fault.message (.refused path reason)⟩ :: failures)

theorem sorted_of_readOrRefused {members : List SolutionMember} (h : ReadOrRefused s members) :
    Sorted s members (members.filterMap (manifest? s)) (members.filterMap (refusal? s)) := by
  induction members with
  | nil => exact .nil
  | cons member rest ih =>
    have ih := ih fun member' hin => h member' (List.mem_cons_of_mem _ hin)
    cases hread : readProject s member.path with
    | ok m =>
      rw [List.filterMap_cons_some (manifest?_eq_some.mpr hread),
        List.filterMap_cons_none (by rw [refusal?, hread])]
      exact .read hread ih
    | error fault =>
      obtain ⟨p, reason, rfl⟩ := h member List.mem_cons_self fault hread
      rw [List.filterMap_cons_none (by rw [manifest?, hread]; rfl),
        List.filterMap_cons_some (by rw [refusal?, hread])]
      exact .refused hread ih

/-- **What sinks a solution** at the manifest of a member: something of the system that is no
refusal of the manifest, or else what stops its reader. -/
inductive Sinks (s : Setting) (path : Path) (fault : Manifest.Fault) : Prop
  | obstacle (hobstacle : s.obstacle path = some fault)
      (hnot : ∀ p reason, fault ≠ .refused p reason)
  | manifest (hclear : s.obstacle path = none) (hstops : Manifest.Stops s.files path fault)

theorem sinks_iff {path : Path} {fault : Manifest.Fault} : Sinks s path fault ↔
    readProject s path = .error fault ∧ ∀ p reason, fault ≠ .refused p reason := by
  cases hobstacle : s.obstacle path with
  | some fault' =>
    have hread : readProject s path = .error fault' := by
      unfold readProject
      rw [hobstacle]
    rw [hread]
    constructor
    · rintro (⟨hfault, hnot⟩ | ⟨hclear, -⟩)
      · exact ⟨congrArg _ (Option.some.inj (hobstacle.symm.trans hfault)), hnot⟩
      · cases hobstacle.symm.trans hclear
    · rintro ⟨hfault, hnot⟩
      exact .obstacle (Except.error.inj hfault ▸ hobstacle) hnot
  | none =>
    rw [readProject_of_clear hobstacle,
      ← Manifest.stops_iff s.registry.extensions s.options.excluded]
    constructor
    · rintro (⟨hfault, -⟩ | ⟨-, hstops⟩)
      · cases hobstacle.symm.trans hfault
      · exact hstops
    · exact .manifest hobstacle

theorem escape?_eq_some_iff {member : SolutionMember} {fault : Manifest.Fault} :
    escape? s member = some fault ↔ Sinks s member.path fault := by
  rw [sinks_iff, escape?]
  cases readProject s member.path with
  | ok _ =>
    refine iff_of_false (Option.some_ne_none _).symm ?_
    rintro ⟨h, -⟩
    cases h
  | error fault' =>
    cases fault' with
    | refused p reason =>
      exact iff_of_false (Option.some_ne_none _).symm fun h =>
        h.2 p reason (Except.error.inj h.1).symm
    | _ =>
      refine ⟨fun h => ?_, fun h => congrArg some (Except.error.inj h.1)⟩
      rw [← Option.some.inj h]
      refine ⟨rfl, fun _ _ heq => ?_⟩
      cases heq

theorem escape?_eq_none_iff_not_sinks {member : SolutionMember} :
    escape? s member = none ↔ ∀ fault, ¬ Sinks s member.path fault := by
  rw [Option.eq_none_iff_forall_ne_some]
  exact forall_congr' fun fault => not_congr escape?_eq_some_iff

/-- **A member sinks a solution** if and only if its manifest stops its reader, or something of
the system is in the way. If there is no such member, each member is sorted to the manifests or to
the failures, and the files of the manifests are run. Otherwise the first such member ends the
analysis with its fault. -/
theorem analyseSolution_members (hsolution : Manifest.readSolution s.files path = .ok solution)
    (p : Progress) :
    ((∀ member ∈ solution.members, ∀ fault, ¬ Sinks s member.path fault)
        ∧ Sorted s solution.members (manifestsOf s solution)
          (solution.members.filterMap (refusal? s))
        ∧ ∃ q, ((analyseSolution s path).run p).1
          = ((runFiles s (filesOf s solution)).run q).1.map (solutionReport s solution))
      ∨ ∃ before member after fault, solution.members = before ++ member :: after
        ∧ (∀ m ∈ before, ∀ fault, ¬ Sinks s m.path fault)
        ∧ Sinks s member.path fault
        ∧ ((analyseSolution s path).run p).1 = .error (.manifest fault) := by
  cases hescape : solution.members.findSome? (escape? s) with
  | none =>
    have hmembers := readOrRefused_iff.mpr hescape
    refine .inl ⟨fun member hmember => ?_, sorted_of_readOrRefused hmembers,
      analyseSolution_run hsolution hmembers p⟩
    exact escape?_eq_none_iff_not_sinks.mp (List.findSome?_eq_none_iff.mp hescape member hmember)
  | some fault =>
    obtain ⟨before, member, after, hsplit, hmember, hbefore⟩ :=
      List.findSome?_eq_some_iff.mp hescape
    exact .inr ⟨before, member, after, fault, hsplit,
      fun m hm => escape?_eq_none_iff_not_sinks.mp (hbefore m hm), escape?_eq_some_iff.mp hmember,
      analyseSolution_stopped hsolution hescape p⟩

/-- Of three members two read, and the one that is missing is set aside. -/
theorem analyseSolution_members_shared : ∃ solution q,
    Manifest.readSolution sharedSetting.files ⟨"/", ["s.sln"]⟩ = .ok solution
      ∧ Sorted sharedSetting sharedMembers (manifestsOf sharedSetting solution)
        (sharedMembers.filterMap (refusal? sharedSetting))
      ∧ ((analyseSolution sharedSetting ⟨"/", ["s.sln"]⟩).run {}).1
        = ((runFiles sharedSetting (filesOf sharedSetting solution)).run q).1.map
            (solutionReport sharedSetting solution) := by
  obtain ⟨solution, hsolution, hmembers⟩ := exists_readSolution_shared
  obtain ⟨-, hsorted, q, hrun⟩ | ⟨before, member, after, fault, hsplit, -, hsinks, -⟩ :=
    analyseSolution_members hsolution {}
  · exact ⟨solution, q, hsolution, hmembers ▸ hsorted, hrun⟩
  · have hin : member ∈ sharedMembers := by
      rw [← hmembers, hsplit]
      exact List.mem_append_right _ List.mem_cons_self
    obtain ⟨hread, hnot⟩ := sinks_iff.mp hsinks
    obtain ⟨p, reason, hrefused⟩ := readOrRefused_shared member hin fault hread
    exact absurd hrefused (hnot p reason)

/-! ### A pattern that begins at the root -/

/-- A project with an item whose pattern begins at the root. -/
def rootedPattern : Bytes := Bytes.ofText "<P><Compile Include=\"/a/*.cs\"/></P>"

/-- A solution with this project as its only member. -/
def sunkFiles : Files where
  root := .directory
    [("s.sln", .file (Bytes.ofText "Project(\"\x7bA\x7d\")=\"P\",\"p.proj\",\"\x7bP\x7d\"\n")),
      ("p.proj", .file rootedPattern)]
  here := ⟨"/", []⟩

/-- Its sources would be measured. -/
def sunkSetting : Setting := { sharedSetting with files := sunkFiles }

theorem parse_rootedPattern : Xml.parse rootedPattern.toList
    = .ok ⟨"P", [], "", [⟨"Compile", [("Include", "/a/*.cs")], "", []⟩]⟩ := by cbv

theorem stops_sunk :
    Manifest.Stops sunkFiles ⟨"/", ["p.proj"]⟩ (.badPattern .notRelative) := by
  have hparts : Manifest.MSBuild.projectParts
      ⟨"P", [], "", [⟨"Compile", [("Include", "/a/*.cs")], "", []⟩]⟩ = [] ++ "/a/*.cs" :: [] := by
    decide +kernel
  have hresolve : (Manifest.resolve sunkFiles ⟨"/", ["p.proj"]⟩).toOption
      = some ⟨"/", ["p.proj"]⟩ := by rfl
  exact .badPart ⟨eq_ok_of_toOption hresolve, rfl⟩
    parse_rootedPattern (by rfl) hparts (fun _ hp => absurd hp List.not_mem_nil)
    (.pattern (.notRelative (by rfl) (by rfl)))

theorem sinks_sunk : Sinks sunkSetting ⟨"/", ["p.proj"]⟩ (.badPattern .notRelative) :=
  .manifest rfl stops_sunk

/-- **One member sinks a solution**: its manifest is a well-formed document, and is not set
aside. -/
theorem analyseSolution_sunk :
    readProject sunkSetting ⟨"/", ["p.proj"]⟩ = .error (.badPattern .notRelative)
      ∧ ((analyseSolution sunkSetting ⟨"/", ["s.sln"]⟩).run {}).1
        = .error (.manifest (.badPattern .notRelative)) := by
  have hread : ((Manifest.readSolution sunkFiles ⟨"/", ["s.sln"]⟩).toOption.map (·.members))
      = some [⟨"P", ⟨"/", ["p.proj"]⟩, "A", "P"⟩] := by decide +kernel
  obtain ⟨solution, hsolution, hmembers⟩ := Option.map_eq_some_iff.mp hread
  refine ⟨(sinks_iff.mp sinks_sunk).1,
    analyseSolution_stopped (s := sunkSetting) (eq_ok_of_toOption hsolution) ?_ {}⟩
  rw [hmembers, List.findSome?_cons, escape?_eq_some_iff.mpr sinks_sunk]

end SyntaxForest.Batch
