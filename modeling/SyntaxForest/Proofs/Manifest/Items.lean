import Mathlib.Data.List.Induction
import Mathlib.Data.List.Nodup
import SyntaxForest.Proofs.Files.Paths
import SyntaxForest.Proofs.Manifest.Stops

/-!
# What the items of a project say

The items of an MSBuild project are read in a row, and each adds to what the others said: paths
that are taken back, and sources. If every part of their lists can be used, none of this can fail,
and the sources of the project are the first mentions among those that are found and those that
the items include, but for what is taken back (`readProject_eq_ok`).
-/

namespace SyntaxForest.Manifest

/-! ## Work that does not fail -/

section

variable {ε α β : Type}

theorem mapM_eq_ok {g : α → Except ε β} {h : α → β} {l : List α} (hg : ∀ a ∈ l, g a = .ok (h a)) :
    l.mapM g = .ok (l.map h) := by
  induction l with
  | nil => rfl
  | cons a rest ih =>
    rw [List.forall_mem_cons] at hg
    rw [List.mapM_cons, hg.1, ih hg.2]
    rfl

theorem foldlM_eq_ok {step : β → α → Except ε β} {next : β → α → β} {l : List α}
    (hstep : ∀ a ∈ l, ∀ b, step b a = .ok (next b a)) (b : β) :
    l.foldlM step b = .ok (l.foldl next b) := by
  induction l generalizing b with
  | nil => rfl
  | cons a rest ih =>
    rw [List.forall_mem_cons] at hstep
    rw [List.foldlM_cons, hstep.1]
    exact ih hstep.2 _

end

namespace MSBuild

/-! ## Items -/

/-- **What the sources of a project are told from.** -/
structure Survey where
  files : Files
  directory : Path
  /-- The suffixes of sources, in lower case. -/
  extensions : List String
  excluded : List String
  root : Xml.Element

/-- The parts of the list that an item has under a key. -/
def partsOf (item : Xml.Element) (key : String) : List String :=
  splitItems ((item.get? key).getD "")

namespace Survey

variable (s : Survey)

/-- The paths that a part of an item list names, none if it cannot be used. -/
def partPaths (part : String) : List Path := (expand s.files s.directory part).toOption.getD []

/-- The sources that a part of an item list names, as it names them. -/
def partSources (part : String) : List Path :=
  (s.partPaths part).filter fun p => s.extensions.contains (Text.lower p.suffix)

/-- The sources that an item names, as it names them. -/
def itemSources (item : Xml.Element) : List Path :=
  (partsOf item "Include").flatMap s.partSources

/-- **The sources that an item includes**, resolved. -/
def includedBy (item : Xml.Element) : List Path := (s.itemSources item).map s.files.resolve

/-- **The paths that an item takes back**, resolved. -/
def removedBy (item : Xml.Element) : List Path :=
  ((partsOf item "Remove").flatMap s.partPaths).map s.files.resolve

/-- The items of the project in the order in which they are read: kind by kind. -/
def itemsRead : List Xml.Element := itemKinds.flatMap s.root.named

/-- The sources that the project has without naming them, as they are found. -/
def found : List Path :=
  if isSdkStyle s.root then s.files.discover s.directory s.extensions s.excluded else []

/-- All paths that are taken back. -/
def removed : List Path := s.itemsRead.flatMap s.removedBy

/-- All sources in the order in which they are mentioned. -/
def mentioned : List Path := s.found ++ s.itemsRead.flatMap s.itemSources

theorem mem_itemsRead {item : Xml.Element} :
    item ∈ s.itemsRead ↔ item ∈ s.root.elements ∧ item.name ∈ itemKinds := by
  simp only [itemsRead, Xml.Element.named, List.mem_flatMap, List.mem_filter, beq_iff_eq]
  exact ⟨fun ⟨_, hkind, hin, hname⟩ => ⟨hin, hname ▸ hkind⟩,
    fun ⟨hin, hkind⟩ => ⟨_, hkind, hin, rfl⟩⟩

/-! ## Reading them -/

variable {s}

theorem expand_eq_ok {part : String} (hpart : ∀ fault, ¬ BadPart s.files s.directory part fault) :
    expand s.files s.directory part = .ok (s.partPaths part) := by
  unfold partPaths
  cases hexpand : expand s.files s.directory part with
  | ok paths => rfl
  | error fault => exact absurd (expand_eq_error_iff.mp hexpand) (hpart fault)

theorem itemPaths_eq_ok {item : Xml.Element} {key : String}
    (hparts : ∀ part ∈ partsOf item key, ∀ fault, ¬ BadPart s.files s.directory part fault) :
    itemPaths s.files s.directory item key = .ok ((partsOf item key).flatMap s.partPaths) := by
  have hread : (partsOf item key).mapM (expand s.files s.directory)
      = .ok ((partsOf item key).map s.partPaths) :=
    mapM_eq_ok fun part hpart => expand_eq_ok (hparts part hpart)
  unfold itemPaths
  rw [← partsOf, hread, List.flatMap_def]
  rfl

/-- What items say together with one more. -/
def withItem (s : Survey) (items : Items) (item : Xml.Element) : Items :=
  ⟨items.removed ++ s.removedBy item, items.included ++ s.itemSources item⟩

theorem add_eq_ok {item : Xml.Element}
    (hparts : ∀ part ∈ itemParts item, ∀ fault, ¬ BadPart s.files s.directory part fault)
    (items : Items) :
    items.add s.files s.directory s.extensions item = .ok (s.withItem items item) := by
  unfold itemParts at hparts
  rw [List.forall_mem_append] at hparts
  unfold Items.add
  rw [itemPaths_eq_ok hparts.1, itemPaths_eq_ok hparts.2]
  show Except.ok (Items.mk _ _) = _
  rw [List.filter_flatMap]
  rfl

theorem foldl_withItem (l : List Xml.Element) (items : Items) :
    l.foldl s.withItem items
      = ⟨items.removed ++ l.flatMap s.removedBy, items.included ++ l.flatMap s.itemSources⟩ := by
  induction l generalizing items with
  | nil => simp
  | cons item rest ih => simp [ih, withItem]

/-- **What all items of a project say**, if all parts of their lists can be used. -/
theorem itemsOf_eq_ok
    (hparts : ∀ part ∈ projectParts s.root, ∀ fault, ¬ BadPart s.files s.directory part fault) :
    itemsOf s.files s.directory s.extensions s.root
      = .ok ⟨s.removed, s.itemsRead.flatMap s.itemSources⟩ := by
  unfold itemsOf
  rw [foldlM_eq_ok fun item hitem items => add_eq_ok (fun part hpart =>
    hparts part (List.mem_flatMap.mpr ⟨item, hitem, hpart⟩)) items, foldl_withItem]
  rfl

end Survey

/-! ## First mentions -/

variable {f : Files} {removed : List Path}

theorem remaining_concat (mentioned : List Path) (p : Path) :
    remaining f removed (mentioned ++ [p])
      = if f.resolve p ∈ removed ∨ f.resolve p ∈ remaining f removed mentioned
        then remaining f removed mentioned
        else remaining f removed mentioned ++ [f.resolve p] := by
  rw [remaining, List.foldl_append]
  show (if (removed.contains (f.resolve p) || (remaining f removed mentioned).contains (f.resolve p))
    then remaining f removed mentioned else remaining f removed mentioned ++ [f.resolve p]) = _
  simp only [Bool.or_eq_true, List.contains_iff_mem]

/-- **What remains** is what is mentioned and not taken back. -/
theorem mem_remaining {mentioned : List Path} {p : Path} :
    p ∈ remaining f removed mentioned ↔ p ∈ mentioned.map f.resolve ∧ p ∉ removed := by
  induction mentioned using List.reverseRecOn with
  | nil => exact iff_of_false List.not_mem_nil fun h => nomatch h.1
  | append_singleton mentioned q ih =>
    rw [remaining_concat, List.map_append, List.mem_append, List.map_singleton,
      List.mem_singleton, or_and_right, ← ih]
    split
    · next hold =>
      refine (or_iff_left_of_imp ?_).symm
      rintro ⟨rfl, hkept⟩
      exact hold.resolve_left hkept
    · next hnew =>
      rw [List.mem_append, List.mem_singleton]
      refine or_congr_right (iff_self_and.mpr ?_)
      rintro rfl
      exact fun hremoved => hnew (.inl hremoved)

theorem nodup_remaining (mentioned : List Path) : (remaining f removed mentioned).Nodup := by
  induction mentioned using List.reverseRecOn with
  | nil => exact List.nodup_nil
  | append_singleton mentioned q ih =>
    rw [remaining_concat]
    split
    · exact ih
    · next hnew =>
      rw [← List.concat_eq_append]
      exact ih.concat fun h => hnew (.inr h)

/-- What is mentioned later comes later, unless it has been mentioned. -/
theorem remaining_append (a b : List Path) : ∃ rest,
    remaining f removed (a ++ b) = remaining f removed a ++ rest
      ∧ ∀ p ∈ rest, p ∉ a.map f.resolve := by
  induction b using List.reverseRecOn with
  | nil => exact ⟨[], by rw [List.append_nil, List.append_nil], fun _ h => nomatch h⟩
  | append_singleton b q ih =>
    obtain ⟨rest, hrest, hnew⟩ := ih
    rw [← List.append_assoc, remaining_concat]
    split
    · exact ⟨rest, hrest, hnew⟩
    · next hq =>
      refine ⟨rest ++ [f.resolve q], by rw [hrest, List.append_assoc], ?_⟩
      refine List.forall_mem_append.mpr ⟨hnew, ?_⟩
      rw [List.forall_mem_singleton]
      intro hold
      refine hq (.inr (mem_remaining.mpr ⟨?_, fun hremoved => hq (.inl hremoved)⟩))
      rw [List.map_append]
      exact List.mem_append_left _ hold

end MSBuild

/-! ## Manifests -/

open MSBuild

theorem settled_of_resolve {f : Files} {path absolute : Path}
    (h : resolve f path = .ok absolute) : absolute.Settled := by
  unfold resolve at h
  split at h
  · cases h
  · exact Except.ok.inj h ▸ Path.settled_resolve _ _

/-- **An MSBuild project that reads**: what is at the path, made absolute, is a document with this
root, and the parts of its item lists can be used. -/
structure Reads (f : Files) (path absolute : Path) (root : Xml.Element) : Prop where
  document : ∃ content, Holds f path absolute content ∧ Xml.parse content.toList = .ok root
  kind : kind? absolute = some .msbuild
  parts : ∀ part ∈ projectParts root, ∀ fault, ¬ BadPart f absolute.parent part fault

/-- What the sources of the project at an absolute path are told from. -/
def surveyOf (f : Files) (supported excluded : List String) (absolute : Path)
    (root : Xml.Element) : Survey where
  files := f
  directory := absolute.parent
  extensions := sourceSuffixes.filter (supported.map Text.lower).contains
  excluded := excluded
  root := root

theorem sources_eq_ok {f : Files} {directory : Path} {supported excluded : List String}
    {root : Xml.Element} {s : Survey}
    (hparts : ∀ part ∈ projectParts root, ∀ fault, ¬ BadPart f directory part fault)
    (hs : s = ⟨f, directory, sourceSuffixes.filter supported.contains, excluded, root⟩) :
    sources f directory supported excluded root = .ok (remaining f s.removed s.mentioned) := by
  subst hs
  unfold sources
  dsimp only
  rw [Survey.itemsOf_eq_ok (s := ⟨f, directory, _, excluded, root⟩) hparts]
  rfl

/-- **The manifest of a project that reads.** -/
theorem readProject_eq_ok {f : Files} {path absolute : Path} {root : Xml.Element}
    (h : Reads f path absolute root) (supported excluded : List String) :
    readProject f supported excluded path = .ok {
      path := absolute, name := absolute.stem, kind := .msbuild
      files := remaining f (surveyOf f supported excluded absolute root).removed
        (surveyOf f supported excluded absolute root).mentioned
      dependencies := dependencies root } := by
  obtain ⟨content, hholds, hparse⟩ := h.document
  unfold readProject readXml
  rw [hholds.resolve]
  dsimp only [bind, Except.bind]
  rw [hholds.read]
  dsimp only
  rw [hparse]
  dsimp only [Except.mapError]
  rw [h.kind]
  dsimp only
  rw [sources_eq_ok h.parts rfl]
  rfl

/-! ### A directory with a project -/

theorem not_badPart_of_plain {f : Files} {directory : Path} {parts : List String}
    (h : parts.any PathPiece.isPattern = false) :
    ∀ part ∈ parts, ∀ fault, ¬ BadPart f directory part fault := by
  intro part hpart fault hbad
  have hplain := List.any_eq_false.mp h part hpart
  cases hbad with
  | pattern hbad => exact hplain (badPattern_iff.mp hbad).1
  | longName hlong => exact hplain hlong.pattern

/-- A project beside three sources and a directory with two more. -/
def filesWith (project : Bytes) : Files where
  root := .directory [("p.proj", .file project), ("a.cs", .file #[]), ("b.cs", .file #[]),
    ("c.cs", .file #[]), ("d", .directory [("e.cs", .file #[]), ("f.cs", .file #[])])]
  here := ⟨"/", []⟩

theorem reads_filesWith {project : Bytes} {root : Xml.Element}
    (hparse : Xml.parse project.toList = .ok root)
    (hparts : (projectParts root).any PathPiece.isPattern = false) :
    Reads (filesWith project) ⟨"/", ["p.proj"]⟩ ⟨"/", ["p.proj"]⟩ root where
  document := ⟨project, ⟨rfl, rfl⟩, hparse⟩
  kind := rfl
  parts := not_badPart_of_plain hparts

end SyntaxForest.Manifest
