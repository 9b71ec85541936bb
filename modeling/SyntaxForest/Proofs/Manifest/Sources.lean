import Mathlib
import SyntaxForest.Proofs.Manifest.Items

/-!
# Which sources a project has

The sources of an MSBuild project are those that are found below its directory, if it is of the
style that has sources without naming them, and those that its items include, less everything that
any of its items takes back (`readProject_members`). The order of the items does not matter.

One would expect an inclusion to stand whatever is taken back, and only the items that stand for
sources – those of `sourceKinds` – to take back what was found. The sources are those exactly if
no path is both included and taken back, and no found source is taken back by an item of the kind
`None` alone. A project that takes back all sources of a directory in order to include one of them
has none (`readProject_members_lost`).
-/

namespace SyntaxForest.Manifest

namespace MSBuild

/-- The kinds of items that are to take back what was found. -/
def sourceKinds : List String := ["Compile", "Content"]

namespace Survey

variable (s : Survey)

/-- A source that the project has without naming it. -/
def Found (p : Path) : Prop := p ∈ s.found.map s.files.resolve

/-- A source that some item includes. -/
def Included (p : Path) : Prop :=
  ∃ item ∈ s.root.elements, item.name ∈ itemKinds ∧ p ∈ s.includedBy item

/-- A path that some item of one of the kinds takes back. -/
def Removed (kinds : List String) (p : Path) : Prop :=
  ∃ item ∈ s.root.elements, item.name ∈ kinds ∧ p ∈ s.removedBy item

variable {s}

theorem mem_mentioned {p : Path} :
    p ∈ s.mentioned.map s.files.resolve ↔ s.Found p ∨ s.Included p := by
  rw [mentioned, List.map_append, List.mem_append, List.map_flatMap, List.mem_flatMap]
  simp only [mem_itemsRead, and_assoc]
  rfl

theorem mem_removed {p : Path} : p ∈ s.removed ↔ s.Removed itemKinds p := by
  simp only [removed, List.mem_flatMap, mem_itemsRead, and_assoc]
  rfl

/-- **The sources of a project** are what is found or included and not taken back. -/
theorem mem_sources {p : Path} : p ∈ remaining s.files s.removed s.mentioned
    ↔ (s.Found p ∨ s.Included p) ∧ ¬ s.Removed itemKinds p :=
  mem_remaining.trans (and_congr mem_mentioned (not_congr mem_removed))

theorem removed_itemKinds {p : Path} :
    s.Removed itemKinds p ↔ s.Removed sourceKinds p ∨ s.Removed ["None"] p := by
  have hkinds : ∀ kind, kind ∈ itemKinds ↔ kind ∈ sourceKinds ∨ kind ∈ ["None"] := fun kind =>
    List.mem_append (s := sourceKinds) (t := ["None"])
  simp only [Removed, hkinds, or_and_right, and_or_left, exists_or]

/-- **When an inclusion stands and only items for sources take back what was found**: if nothing
is both included and taken back, and what an item of the kind `None` takes back of what was found
is taken back by another item as well. -/
theorem expected_iff {files : List Path}
    (hfiles : ∀ p, p ∈ files ↔ (s.Found p ∨ s.Included p) ∧ ¬ s.Removed itemKinds p) :
    (∀ p, p ∈ files ↔ s.Found p ∧ ¬ s.Removed sourceKinds p ∨ s.Included p)
      ↔ (∀ p, s.Included p → ¬ s.Removed itemKinds p)
        ∧ ∀ p, s.Found p → s.Removed ["None"] p → s.Removed sourceKinds p := by
  constructor
  · intro h
    have hkept : ∀ p, s.Included p → ¬ s.Removed itemKinds p := fun p hp =>
      ((hfiles p).mp ((h p).mpr (.inr hp))).2
    refine ⟨hkept, fun p hfound hnone => ?_⟩
    by_contra hsource
    exact ((hfiles p).mp ((h p).mpr (.inl ⟨hfound, hsource⟩))).2
      (removed_itemKinds.mpr (.inr hnone))
  · rintro ⟨hkept, hnone⟩ p
    rw [hfiles]
    constructor
    · rintro ⟨hfound | hincluded, hremoved⟩
      · exact .inl ⟨hfound, fun hsource => hremoved (removed_itemKinds.mpr (.inl hsource))⟩
      · exact .inr hincluded
    · rintro (⟨hfound, hsource⟩ | hincluded)
      · refine ⟨.inl hfound, fun hremoved => hsource ?_⟩
        exact (removed_itemKinds.mp hremoved).elim id (hnone p hfound)
      · exact ⟨.inr hincluded, hkept p hincluded⟩

end Survey

end MSBuild

open MSBuild

/-- **The sources of a project**: what is found or included and not taken back. They are what one
would expect, if and only if no inclusion is taken back and no found source is taken back by an
item of the kind `None` alone. -/
theorem readProject_members {f : Files} {path absolute : Path} {root : Xml.Element}
    (h : Reads f path absolute root) (supported excluded : List String) :
    let s := surveyOf f supported excluded absolute root
    ∃ m, readProject f supported excluded path = .ok m
      ∧ (∀ p, p ∈ m.files ↔ (s.Found p ∨ s.Included p) ∧ ¬ s.Removed itemKinds p)
      ∧ ((∀ p, p ∈ m.files ↔ s.Found p ∧ ¬ s.Removed sourceKinds p ∨ s.Included p)
        ↔ (∀ p, s.Included p → ¬ s.Removed itemKinds p)
          ∧ ∀ p, s.Found p → s.Removed ["None"] p → s.Removed sourceKinds p) := by
  intro s
  exact ⟨_, readProject_eq_ok h supported excluded, fun p => s.mem_sources,
    s.expected_iff fun p => s.mem_sources⟩

/-! ### Items that take back what others include -/

/-- A project that takes back a source it includes and one that is found. -/
def lostRoot : Xml.Element :=
  ⟨"P", [("Sdk", "x")], "", [⟨"Compile", [("Include", "a.cs")], "", []⟩,
    ⟨"None", [("Remove", "a.cs;b.cs")], "", []⟩]⟩

def lostProject : Bytes := Bytes.ofText
  "<P Sdk=\"x\"><Compile Include=\"a.cs\"/><None Remove=\"a.cs;b.cs\"/></P>"

theorem parse_lostProject : Xml.parse lostProject.toList = .ok lostRoot := by cbv

/-- What its sources are told from. -/
def lostSurvey : Survey := surveyOf (filesWith lostProject) [".cs"] ["d"] ⟨"/", ["p.proj"]⟩ lostRoot

theorem reads_lostProject :
    Reads (filesWith lostProject) ⟨"/", ["p.proj"]⟩ ⟨"/", ["p.proj"]⟩ lostRoot :=
  reads_filesWith parse_lostProject (by cbv)

theorem found_lostSurvey {p : Path} : lostSurvey.Found p
    ↔ p ∈ [⟨"/", ["a.cs"]⟩, ⟨"/", ["b.cs"]⟩, (⟨"/", ["c.cs"]⟩ : Path)] := by
  have hlist : lostSurvey.found.map lostSurvey.files.resolve
      = [⟨"/", ["a.cs"]⟩, ⟨"/", ["b.cs"]⟩, ⟨"/", ["c.cs"]⟩] := by cbv
  rw [Survey.Found, hlist]

theorem elements_lostSurvey : lostSurvey.root.elements = [lostRoot,
    ⟨"Compile", [("Include", "a.cs")], "", []⟩, ⟨"None", [("Remove", "a.cs;b.cs")], "", []⟩] := rfl

theorem included_lostSurvey {p : Path} : lostSurvey.Included p ↔ p = ⟨"/", ["a.cs"]⟩ := by
  have hroot : lostRoot.name ∉ itemKinds := by decide
  have hcompile : lostSurvey.includedBy ⟨"Compile", [("Include", "a.cs")], "", []⟩
      = [⟨"/", ["a.cs"]⟩] := by cbv
  have hnone : lostSurvey.includedBy ⟨"None", [("Remove", "a.cs;b.cs")], "", []⟩ = [] := by
    cbv
  rw [Survey.Included, elements_lostSurvey]
  simp only [List.mem_cons, exists_eq_or_imp, exists_eq_left, List.not_mem_nil, or_false, hroot,
    hcompile, hnone, false_and, and_false, false_or]
  exact and_iff_right (by decide)

theorem removed_lostSurvey {kinds : List String} {p : Path} : lostSurvey.Removed kinds p
    ↔ "None" ∈ kinds ∧ p ∈ [⟨"/", ["a.cs"]⟩, (⟨"/", ["b.cs"]⟩ : Path)] := by
  have hroot : lostSurvey.removedBy lostRoot = [] := by cbv
  have hcompile : lostSurvey.removedBy ⟨"Compile", [("Include", "a.cs")], "", []⟩ = [] := by
    cbv
  have hnone : lostSurvey.removedBy ⟨"None", [("Remove", "a.cs;b.cs")], "", []⟩
      = [⟨"/", ["a.cs"]⟩, ⟨"/", ["b.cs"]⟩] := by cbv
  rw [Survey.Removed, elements_lostSurvey]
  simp only [List.mem_cons, exists_eq_or_imp, exists_eq_left, List.not_mem_nil, or_false, hroot,
    hcompile, hnone, and_false, false_or]
  rfl

/-- One source is left. -/
theorem readProject_members_left : Reads (filesWith lostProject) ⟨"/", ["p.proj"]⟩
      ⟨"/", ["p.proj"]⟩ lostRoot
    ∧ ∃ m, readProject (filesWith lostProject) [".cs"] ["d"] ⟨"/", ["p.proj"]⟩ = .ok m
      ∧ ∀ p, p ∈ m.files ↔ p = ⟨"/", ["c.cs"]⟩ := by
  obtain ⟨m, hm, hfiles, -⟩ := readProject_members reads_lostProject [".cs"] ["d"]
  refine ⟨reads_lostProject, m, hm, fun p => (hfiles p).trans ?_⟩
  have hnone : "None" ∈ itemKinds := by decide
  show (lostSurvey.Found p ∨ lostSurvey.Included p) ∧ ¬ lostSurvey.Removed itemKinds p ↔ _
  rw [found_lostSurvey, included_lostSurvey, removed_lostSurvey, and_iff_right hnone]
  simp only [List.mem_cons, List.not_mem_nil, or_false]
  constructor
  · tauto
  · rintro rfl
    decide

/-- **An inclusion is lost, and a source that no item for sources takes back.** -/
theorem readProject_members_lost :
    ∃ m, readProject (filesWith lostProject) [".cs"] ["d"] ⟨"/", ["p.proj"]⟩ = .ok m
      ∧ lostSurvey.Included ⟨"/", ["a.cs"]⟩ ∧ ⟨"/", ["a.cs"]⟩ ∉ m.files
      ∧ lostSurvey.Found ⟨"/", ["b.cs"]⟩ ∧ ¬ lostSurvey.Removed sourceKinds ⟨"/", ["b.cs"]⟩
      ∧ ⟨"/", ["b.cs"]⟩ ∉ m.files
      ∧ ¬ ∀ p, p ∈ m.files ↔
        lostSurvey.Found p ∧ ¬ lostSurvey.Removed sourceKinds p ∨ lostSurvey.Included p := by
  have hincluded : lostSurvey.Included ⟨"/", ["a.cs"]⟩ := included_lostSurvey.mpr rfl
  have hkept : ∀ p ∈ [⟨"/", ["a.cs"]⟩, (⟨"/", ["b.cs"]⟩ : Path)],
      p ∉ remaining lostSurvey.files lostSurvey.removed lostSurvey.mentioned := fun p hp hin =>
    (Survey.mem_sources.mp hin).2 (removed_lostSurvey.mpr ⟨by decide, hp⟩)
  refine ⟨_, readProject_eq_ok reads_lostProject _ _, hincluded, hkept _ (by decide),
    found_lostSurvey.mpr (by decide), fun h => ?_, hkept _ (by decide), fun h => ?_⟩
  · exact absurd (removed_lostSurvey.mp h).1 (by decide)
  · exact hkept _ (by decide) ((h ⟨"/", ["a.cs"]⟩).mpr (.inr hincluded))

end SyntaxForest.Manifest
