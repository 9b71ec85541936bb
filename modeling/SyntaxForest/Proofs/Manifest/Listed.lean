import SyntaxForest.Proofs.Files.Pattern
import SyntaxForest.Proofs.Manifest.Items

/-!
# What a manifest lists

Files come into a manifest on three ways. They are found below the directory of an MSBuild
project, they are named by its items, or they are found below the source roots of a Maven project.
Each way tests the suffix by itself, the items before the path is resolved. Whichever way a file
has come, it is listed under an absolute path whose names stand between slashes, and with a suffix
that was asked for, whatever its letters' case (`readProject_listed`).
-/

namespace SyntaxForest.Manifest

variable {f : Files} {path directory : Path} {supported excluded extensions : List String}
  {m : ProjectManifest}

/-- **A path as manifests list it**, with one of some suffixes. -/
structure Listed (supported : List String) (p : Path) : Prop where
  root : p.root = "/"
  written : p.Written
  suffix : ∃ x ∈ supported, Text.lower p.suffix = Text.lower x

/-! ## Ways into a manifest -/

theorem written_of_resolve (hf : f.Written) (hpath : path.Written) {absolute : Path}
    (h : resolve f path = .ok absolute) : absolute.Written := by
  unfold resolve at h
  split at h
  · cases h
  · exact Except.ok.inj h ▸ hf.resolve hpath

/-- **The files of a manifest that reads** are the sources of a Maven or an MSBuild project. -/
theorem sources_of_readProject (h : readProject f supported excluded path = .ok m) :
    ∃ absolute, resolve f path = .ok absolute
      ∧ (m.files = Maven.sources f absolute.parent (supported.map Text.lower) excluded
        ∨ ∃ root, MSBuild.sources f absolute.parent (supported.map Text.lower) excluded root
          = .ok m.files) := by
  unfold readProject at h
  obtain ⟨absolute, hresolve, h⟩ := exists_of_bind_eq_ok h
  obtain ⟨root, -, h⟩ := exists_of_bind_eq_ok h
  refine ⟨absolute, hresolve, ?_⟩
  dsimp only at h
  split at h
  · cases h
  · obtain rfl := Except.ok.inj h
    exact .inl rfl
  · obtain ⟨files, hsources, h⟩ := exists_of_bind_eq_ok h
    obtain rfl := Except.ok.inj h
    exact .inr ⟨root, hsources⟩

/-! ## Suffixes -/

/-- **Suffixes in small letters**, as the kinds of projects know them. -/
def Small (suffixes : List String) : Prop := ∀ x ∈ suffixes, x ≠ "" ∧ Text.lower x = x

theorem small_msbuild : Small MSBuild.sourceSuffixes := by
  unfold Small
  decide

theorem small_maven : Small Maven.sourceSuffixes := by
  unfold Small
  decide

/-- **A source of a kind of project** keeps its suffix when its path is resolved. -/
theorem listed_resolve {suffixes : List String} (hsmall : Small suffixes) (hf : f.Written)
    {p : Path} (hp : p.Written)
    (hsuffix : Text.lower p.suffix ∈ suffixes.filter (supported.map Text.lower).contains) :
    Listed supported (f.resolve p) := by
  obtain ⟨hknown, hasked⟩ := List.mem_filter.mp hsuffix
  rw [List.contains_iff_mem, List.mem_map] at hasked
  obtain ⟨x, hx, hlower⟩ := hasked
  have hne : p.suffix ≠ "" := fun hempty => by
    rw [hempty] at hknown
    exact (hsmall _ hknown).1 (by decide)
  have hkept : (f.resolve p).suffix = p.suffix := Path.suffix_resolve hne
  exact ⟨rfl, hf.resolve hp, x, hx, by rw [hkept, hlower]⟩

/-- **What is found** for a kind of project. -/
theorem listed_of_mem_discover {suffixes : List String} (hsmall : Small suffixes) (hf : f.Written)
    (hdirectory : directory.Written) {p : Path} (h : p ∈ f.discover directory
      (suffixes.filter (supported.map Text.lower).contains) excluded) :
    Listed supported (f.resolve p) := by
  obtain ⟨-, -, -, -, -, ⟨x, hx, hsuffix⟩, -⟩ := Files.mem_discover.mp h
  refine listed_resolve hsmall hf (hf.of_mem_discover hdirectory h) ?_
  rw [hsuffix, (hsmall x (List.mem_filter.mp hx).1).2]
  exact hx

/-! ## Kinds of projects -/

namespace MSBuild

namespace Survey

variable {s : Survey}

/-- The paths that a part of an item list names. -/
theorem written_of_mem_partPaths (hf : s.files.Written) (hdirectory : s.directory.Written)
    {part : String} {p : Path} (h : p ∈ s.partPaths part) : p.Written := by
  unfold partPaths expand at h
  split at h
  · cases hmatching : s.files.matching s.directory part with
    | error _ => rw [hmatching] at h; cases h
    | ok found =>
      rw [hmatching] at h
      exact hf.of_mem_matching hdirectory hmatching h
  · obtain rfl := List.mem_singleton.mp h
    exact hdirectory.join (Path.written_ofText part)

/-- **The sources that an item names** pass the test of suffixes as they are named. -/
theorem mem_itemSources {item : Xml.Element} {p : Path} (h : p ∈ s.itemSources item) :
    (∃ part, p ∈ s.partPaths part) ∧ Text.lower p.suffix ∈ s.extensions := by
  obtain ⟨part, -, hpart⟩ := List.mem_flatMap.mp h
  obtain ⟨hnamed, hsuffix⟩ := List.mem_filter.mp hpart
  exact ⟨⟨part, hnamed⟩, List.contains_iff_mem.mp hsuffix⟩

end Survey

/-- If an MSBuild project has sources at all, the parts of its item lists can be used. -/
theorem not_badPart_of_sources {root : Xml.Element} {files : List Path}
    (h : sources f directory supported excluded root = .ok files) :
    ∀ part ∈ projectParts root, ∀ fault, ¬ BadPart f directory part fault := by
  intro part hpart fault hbad
  have hfault := @fault?_sources f directory supported excluded root
  rw [h, eq_comm] at hfault
  have hnone := List.findSome?_eq_none_iff.mp hfault part hpart
  rw [expand_eq_error_iff.mpr hbad] at hnone
  cases hnone

/-- **The sources of an MSBuild project.** -/
theorem listed_of_mem_sources (hf : f.Written) (hdirectory : directory.Written)
    {root : Xml.Element} {files : List Path}
    (h : sources f directory (supported.map Text.lower) excluded root = .ok files) :
    ∀ p ∈ files, Listed supported p := by
  intro p hp
  obtain rfl := Except.ok.inj (h.symm.trans (sources_eq_ok (not_badPart_of_sources h) rfl))
  obtain ⟨q, hq, rfl⟩ := List.mem_map.mp (mem_remaining.mp hp).1
  rcases List.mem_append.mp hq with hfound | hitems
  · unfold Survey.found at hfound
    split at hfound
    · exact listed_of_mem_discover small_msbuild hf hdirectory hfound
    · cases hfound
  · obtain ⟨item, -, hitem⟩ := List.mem_flatMap.mp hitems
    obtain ⟨⟨part, hpart⟩, hsuffix⟩ := Survey.mem_itemSources hitem
    exact listed_resolve small_msbuild hf
      (Survey.written_of_mem_partPaths hf hdirectory hpart) hsuffix

end MSBuild

/-- **The sources of a Maven project.** -/
theorem Maven.listed_of_mem_sources (hf : f.Written) (hdirectory : directory.Written) :
    ∀ p ∈ sources f directory (supported.map Text.lower) excluded, Listed supported p := by
  unfold sources
  simp only [List.forall_mem_map, List.forall_mem_flatMap]
  refine fun start hstart p hp => listed_of_mem_discover small_maven hf ?_ hp
  split at hstart
  · exact List.mem_singleton.mp hstart ▸ hdirectory
  · obtain ⟨source, -, rfl⟩ := List.mem_map.mp (List.mem_filter.mp hstart).1
    exact hdirectory.join (Path.written_ofText source)

/-! ## Manifests -/

/-- **What a manifest lists**: absolute paths whose names stand between slashes, and with suffixes
that were asked for. -/
theorem readProject_listed (hf : f.Written) (hpath : path.Written)
    (h : readProject f supported excluded path = .ok m) : ∀ p ∈ m.files, Listed supported p := by
  obtain ⟨absolute, hresolve, hfiles⟩ := sources_of_readProject h
  have hdirectory : absolute.parent.Written := (written_of_resolve hf hpath hresolve).parent
  rcases hfiles with hmaven | ⟨root, hmsbuild⟩
  · rw [hmaven]
    exact Maven.listed_of_mem_sources hf hdirectory
  · exact MSBuild.listed_of_mem_sources hf hdirectory hmsbuild

end SyntaxForest.Manifest
