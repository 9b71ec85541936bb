import Mathlib.Data.List.Nodup
import SyntaxForest.Files.Discovery
import SyntaxForest.Proofs.Text.Joining

/-!
# What a discovery finds

A discovery walks down a tree of directories and leaves out those of excluded names with all that
they hold. What it finds is told without a walk (`discover_exact`): each file below the directory
whose suffix is wanted and that has no excluded name above it, once, in the order of the texts of
the ways to the files. Excluded names count for directories below the first one only, neither for
that one nor for files.

That each file is found once and that the order is strict is a matter of the tree: two entries of
a directory have different names, and a slash is in none of them, so different ways have
different texts.
-/

namespace SyntaxForest

/-! ## Sorting -/

/-- **A list sorted by a key** has no member behind another whose key is the greater. -/
theorem pairwise_mergeSort_not_lt {α κ : Type} [LT κ] [DecidableLT κ] (key : α → κ)
    (htrans : ∀ a b c : κ, ¬ b < a → ¬ c < b → ¬ c < a) (htotal : ∀ a b : κ, ¬ b < a ∨ ¬ a < b)
    (l : List α) :
    (l.mergeSort fun a b => !decide (key b < key a)).Pairwise fun a b => ¬ key b < key a := by
  refine (List.pairwise_mergeSort (fun a b c hab hbc => ?_) (fun a b => ?_) l).imp ?_
  · rw [Bool.not_eq_true', decide_eq_false_iff_not] at *
    exact htrans _ _ _ hab hbc
  · rw [Bool.or_eq_true, Bool.not_eq_true', Bool.not_eq_true', decide_eq_false_iff_not,
      decide_eq_false_iff_not]
    exact htotal _ _
  · intro a b hab
    rwa [Bool.not_eq_true', decide_eq_false_iff_not] at hab

/-! ## Ways and their texts -/

namespace Text

theorem toList_join_cons (a b : String) (rest : List String) :
    (join "/" (a :: b :: rest)).toList = a.toList ++ '/' :: (join "/" (b :: rest)).toList := by
  rw [join, String.toList_append, String.toList_append, List.append_assoc]
  · rfl
  · exact List.cons_ne_nil _ _

/-- **Joined names are read back** by cutting at the slashes. -/
theorem splitAfter_join {names : List String} (hne : names ≠ [])
    (hslash : ∀ n ∈ names, '/' ∉ n.toList) :
    splitAfter '/' [] [] (join "/" names).toList = names.map String.toList := by
  match names, hne with
  | [n], _ => exact splitAfter_of_not_mem (hslash n List.mem_cons_self)
  | a :: b :: rest, _ =>
    have ih := splitAfter_join (List.cons_ne_nil b rest)
      fun n hn => hslash n (List.mem_cons_of_mem _ hn)
    rw [toList_join_cons, splitAfter_append, ih,
      splitAfter_of_not_mem (hslash a List.mem_cons_self)]
    rfl

theorem join_inj {a b : List String} (ha : a ≠ []) (hb : b ≠ [])
    (hslash : ∀ n ∈ a, '/' ∉ n.toList) (hslash' : ∀ n ∈ b, '/' ∉ n.toList)
    (h : join "/" a = join "/" b) : a = b := by
  have hpieces := splitAfter_join ha hslash
  rw [h, splitAfter_join hb hslash'] at hpieces
  exact (List.map_injective_iff.mpr fun _ _ => String.toList_inj.mp) hpieces.symm

end Text

namespace Path

/-- The path that names lead to from a path. -/
def inner (p : Path) (way : List String) : Path := { p with names := p.names ++ way }

/-- **The text of a path seen from a directory above it**: the names between slashes. -/
def relativeText (directory p : Path) : String :=
  Text.join "/" (p.names.drop directory.names.length)

theorem relativeText_inner (directory : Path) (way : List String) :
    relativeText directory (directory.inner way) = Text.join "/" way := by
  rw [relativeText, inner, List.drop_left]

theorem name_inner (directory : Path) {way : List String} (h : way ≠ []) :
    (directory.inner way).name = way.getLast?.getD "" := by
  rw [name, inner, List.getLast?_append_of_ne_nil _ h]

end Path

/-! ## Trees -/

namespace Entry

/-- **A tree as a disk holds it**: the entries of a directory have different names, and no name
is a step back or holds a slash. -/
inductive Proper : Entry → Prop
  | file (content : Bytes) : Proper (.file content)
  | directory {es : List (String × Entry)} (hdistinct : (es.map Prod.fst).Nodup)
      (hback : ∀ e ∈ es, e.1 ≠ "..") (hslash : ∀ e ∈ es, '/' ∉ e.1.toList)
      (hinner : ∀ e ∈ es, Proper e.2) : Proper (.directory es)

/-- **A file below an entry**, by the names that lead to it. -/
inductive HasFile : Entry → List String → Prop
  | here {es : List (String × Entry)} {name : String} {content : Bytes}
      (h : (name, .file content) ∈ es) : HasFile (.directory es) [name]
  | inside {es : List (String × Entry)} {name : String} {e : Entry} {way : List String}
      (h : (name, e) ∈ es) (hway : HasFile e way) : HasFile (.directory es) (name :: way)

variable {e : Entry} {es : List (String × Entry)} {way : List String} {excluded : List String}

theorem HasFile.ne_nil (h : HasFile e way) : way ≠ [] := by
  cases h <;> exact List.cons_ne_nil _ _

/-- The names on the way to a file are names of the tree. -/
theorem HasFile.names (h : HasFile e way) (he : e.Proper) :
    ∀ n ∈ way, n ≠ ".." ∧ '/' ∉ n.toList := by
  induction h with
  | here h =>
    cases he with
    | directory _ hback hslash _ =>
      intro n hn
      rw [List.mem_singleton.mp hn]
      exact ⟨hback _ h, hslash _ h⟩
  | inside h _ ih =>
    cases he with
    | directory _ hback hslash hinner =>
      intro n hn
      rcases List.mem_cons.mp hn with rfl | hn
      · exact ⟨hback _ h, hslash _ h⟩
      · exact ih (hinner _ h) n hn

/-- A file at or below a named entry. -/
def HasFileAt (named : String × Entry) (way : List String) : Prop :=
  (∃ content, named.2 = .file content ∧ way = [named.1])
    ∨ ∃ inner, way = named.1 :: inner ∧ named.2.HasFile inner

theorem hasFile_directory_iff :
    HasFile (.directory es) way ↔ ∃ named ∈ es, HasFileAt named way := by
  constructor
  · intro h
    cases h with
    | here h => exact ⟨_, h, .inl ⟨_, rfl, rfl⟩⟩
    | inside h hway => exact ⟨_, h, .inr ⟨_, rfl, hway⟩⟩
  · rintro ⟨⟨name, e⟩, hin, ⟨content, rfl, rfl⟩ | ⟨inner, rfl, hinner⟩⟩
    · exact .here hin
    · exact .inside hin hinner

/-! ## The walk -/

mutual

/-- **What the walk comes to** are the files with no excluded directory above them. -/
theorem mem_filesBelow (excluded : List String) : ∀ (e : Entry) (way : List String),
    way ∈ filesBelow excluded e ↔ e.HasFile way ∧ ∀ n ∈ way.dropLast, n ∉ excluded
  | .file _, way => by
    rw [filesBelow]
    exact iff_of_false List.not_mem_nil fun ⟨h, _⟩ => nomatch h
  | .directory es, way => by
    rw [filesBelow, hasFile_directory_iff]
    exact mem_filesIn_iff excluded es way

theorem mem_filesIn_iff (excluded : List String) : ∀ (es : List (String × Entry))
    (way : List String), way ∈ filesIn excluded es
      ↔ (∃ named ∈ es, HasFileAt named way) ∧ ∀ n ∈ way.dropLast, n ∉ excluded
  | [], way => by
    rw [filesIn]
    exact iff_of_false List.not_mem_nil fun ⟨⟨_, h, _⟩, _⟩ => nomatch h
  | named :: rest, way => by
    rw [filesIn, List.mem_append, mem_filesAt_iff excluded named way,
      mem_filesIn_iff excluded rest way, List.exists_mem_cons_iff, or_and_right]

theorem mem_filesAt_iff (excluded : List String) : ∀ (named : String × Entry) (way : List String),
    way ∈ filesAt excluded named
      ↔ HasFileAt named way ∧ ∀ n ∈ way.dropLast, n ∉ excluded
  | (name, .file content), way => by
    rw [filesAt, List.mem_singleton]
    constructor
    · rintro rfl
      exact ⟨.inl ⟨content, rfl, rfl⟩, fun n hn => nomatch hn⟩
    · rintro ⟨⟨_, _, hway⟩ | ⟨_, _, hinner⟩, _⟩
      · exact hway
      · cases hinner
  | (name, .directory es), way => by
    have hin := mem_filesIn_iff excluded es
    simp only [← hasFile_directory_iff] at hin
    have hat : HasFileAt (name, .directory es) way
        ↔ ∃ inner, way = name :: inner ∧ HasFile (.directory es) inner :=
      or_iff_right fun ⟨_, h, _⟩ => nomatch h
    rw [filesAt, hat]
    split
    · next hexcluded =>
      refine iff_of_false List.not_mem_nil ?_
      rintro ⟨⟨inner, rfl, hinner⟩, hclear⟩
      rw [List.dropLast_cons_of_ne_nil hinner.ne_nil] at hclear
      exact hclear name List.mem_cons_self (List.contains_iff_mem.mp hexcluded)
    · next hkept =>
      rw [List.contains_iff_mem] at hkept
      rw [List.mem_map]
      constructor
      · rintro ⟨inner, hinner, rfl⟩
        obtain ⟨hfile, hclear⟩ := (hin inner).mp hinner
        refine ⟨⟨inner, rfl, hfile⟩, ?_⟩
        rw [List.dropLast_cons_of_ne_nil hfile.ne_nil, List.forall_mem_cons]
        exact ⟨hkept, hclear⟩
      · rintro ⟨⟨inner, rfl, hfile⟩, hclear⟩
        rw [List.dropLast_cons_of_ne_nil hfile.ne_nil, List.forall_mem_cons] at hclear
        exact ⟨inner, (hin inner).mpr ⟨hfile, hclear.2⟩, rfl⟩

end

theorem head?_of_mem_filesAt {named : String × Entry} (h : way ∈ filesAt excluded named) :
    way.head? = some named.1 := by
  obtain ⟨⟨_, _, rfl⟩ | ⟨_, rfl, _⟩, _⟩ := (mem_filesAt_iff excluded named way).mp h <;> rfl

theorem nodup_filesAt {named : String × Entry} (h : (filesBelow excluded named.2).Nodup) :
    (filesAt excluded named).Nodup := by
  match named, h with
  | (name, .file _), _ =>
    rw [filesAt]
    exact List.nodup_singleton [name]
  | (name, .directory es), h =>
    rw [filesAt]
    split
    · exact List.nodup_nil
    · rw [filesBelow] at h
      exact h.map (List.cons_injective)

/-- Entries of different names have different ways below them. -/
theorem nodup_filesIn (hdistinct : (es.map Prod.fst).Nodup)
    (hat : ∀ named ∈ es, (filesAt excluded named).Nodup) : (filesIn excluded es).Nodup := by
  induction es with
  | nil =>
    rw [filesIn]
    exact List.nodup_nil
  | cons named rest ih =>
    rw [List.map_cons, List.nodup_cons] at hdistinct
    rw [List.forall_mem_cons] at hat
    rw [filesIn, List.nodup_append]
    refine ⟨hat.1, ih hdistinct.2 hat.2, fun way hway way' hway' => ?_⟩
    rintro rfl
    obtain ⟨⟨other, hother, hat'⟩, hclear⟩ := (mem_filesIn_iff excluded rest way).mp hway'
    have hhead := head?_of_mem_filesAt ((mem_filesAt_iff excluded other way).mpr ⟨hat', hclear⟩)
    rw [head?_of_mem_filesAt hway] at hhead
    exact hdistinct.1 (List.mem_map.mpr ⟨other, hother, (Option.some.inj hhead).symm⟩)

/-- **The walk comes to each file once.** -/
theorem Proper.nodup_filesBelow (h : e.Proper) (excluded : List String) :
    (filesBelow excluded e).Nodup := by
  induction h with
  | file _ => exact List.nodup_nil
  | directory hdistinct _ _ _ ih =>
    rw [filesBelow]
    exact nodup_filesIn hdistinct fun named hin => nodup_filesAt (ih named hin)

end Entry

/-! ## Paths in a tree -/

namespace Files

open Entry

/-- **What names lead to** has whatever the entries of a directory have if the directory has
it. -/
theorem follow_induction {P : Entry → Prop}
    (hinner : ∀ es, P (.directory es) → ∀ named ∈ es, P named.2) {names : List String}
    {above : List Entry} {e : Entry} (habove : ∀ e ∈ above, P e)
    (h : follow names above = .ok e) : P e := by
  fun_induction follow names above with
  | case1 => cases h
  | case2 e' _ =>
    obtain rfl := Except.ok.inj h
    exact habove _ List.mem_cons_self
  | case3 => cases h
  | case4 rest e' above _ ih =>
    refine ih (fun a ha => ?_) h
    split at ha
    · exact habove a (List.mem_singleton.mp ha ▸ List.mem_cons_self)
    · exact habove a (List.mem_cons_of_mem _ ha)
  | case5 => cases h
  | case6 name rest e' above _ _ _ inner hlookup ih =>
    refine ih (List.forall_mem_cons.mpr ⟨?_, habove⟩) h
    obtain ⟨before, after, hes, -⟩ := List.lookup_eq_some_iff.mp hlookup
    have hin : (name, inner) ∈ e'.entries := hes ▸ List.mem_append_right _ List.mem_cons_self
    cases e' with
    | file _ => cases hin
    | directory es => exact hinner es (habove _ List.mem_cons_self) _ hin
  | case7 => cases h

theorem find?_induction {P : Entry → Prop}
    (hinner : ∀ es, P (.directory es) → ∀ named ∈ es, P named.2) {f : Files} (hroot : P f.root)
    {p : Path} {e : Entry} (h : f.find? p = .ok e) : P e := by
  unfold find? at h
  dsimp only at h
  split at h
  · cases h
  · exact follow_induction hinner (fun a ha => List.mem_singleton.mp ha ▸ hroot) h

theorem proper_of_find? {f : Files} (hroot : f.root.Proper) {p : Path} {e : Entry}
    (h : f.find? p = .ok e) : e.Proper := by
  refine find?_induction (fun es hes named hin => ?_) hroot h
  cases hes with
  | directory _ _ _ hinner => exact hinner named hin

/-! ## Discovery -/

variable {f : Files} {directory : Path} {extensions excluded : List String}

/-- The ways to the files that a discovery finds below an entry, in the order of their texts. -/
def sortedWays (e : Entry) (extensions excluded : List String) : List (List String) :=
  ((e.filesBelow excluded).filter (isWanted extensions)).mergeSort
    fun a b => !(Text.join "/" b < Text.join "/" a)

theorem discover_of_find? {e : Entry} (h : f.find? directory = .ok e) :
    f.discover directory extensions excluded
      = (sortedWays e extensions excluded).map directory.inner := by
  unfold discover
  rw [h]
  rfl

theorem isWanted_iff {way : List String} (hne : way ≠ []) : isWanted extensions way = true
    ↔ ∃ x ∈ extensions, Text.lower (directory.inner way).suffix = Text.lower x := by
  rw [isWanted, List.contains_iff_mem, List.mem_map, Path.suffix, Path.name_inner _ hne]
  exact exists_congr fun x => and_congr_right fun _ => eq_comm

theorem mem_sortedWays {e : Entry} {way : List String} :
    way ∈ sortedWays e extensions excluded
      ↔ e.HasFile way ∧ (∀ n ∈ way.dropLast, n ∉ excluded) ∧ isWanted extensions way := by
  rw [sortedWays, List.mem_mergeSort, List.mem_filter, mem_filesBelow, and_assoc]

/-- In a proper tree different files have different texts, so the order is strict. -/
theorem sortedWays_pairwise {e : Entry} (he : e.Proper) :
    (sortedWays e extensions excluded).Pairwise fun a b => Text.join "/" a < Text.join "/" b := by
  have hsorted : (sortedWays e extensions excluded).Pairwise fun a b =>
      ¬ Text.join "/" b < Text.join "/" a :=
    pairwise_mergeSort_not_lt (Text.join "/") (fun _ _ _ => String.le_trans) String.le_total _
  have hnodup : (sortedWays e extensions excluded).Nodup :=
    (List.mergeSort_perm _ _).nodup_iff.mpr ((he.nodup_filesBelow excluded).filter _)
  refine (hsorted.and hnodup).imp_of_mem fun {a b} ha hb ⟨hle, hne⟩ => ?_
  have hafile := (mem_sortedWays.mp ha).1
  have hbfile := (mem_sortedWays.mp hb).1
  rw [String.not_lt] at hle
  refine String.not_le.mp fun hge => hne ?_
  exact Text.join_inj hafile.ne_nil hbfile.ne_nil (fun n hn => (hafile.names he n hn).2)
    (fun n hn => (hbfile.names he n hn).2) (String.le_antisymm hle hge)

/-- What is found stands in the order of the relative paths. -/
theorem discover_pairwise (hroot : f.root.Proper) (directory : Path)
    (extensions excluded : List String) :
    (f.discover directory extensions excluded).Pairwise fun p q =>
      directory.relativeText p < directory.relativeText q := by
  cases hfind : f.find? directory with
  | error trouble =>
    unfold discover
    rw [hfind]
    exact .nil
  | ok e =>
    rw [discover_of_find? hfind, List.pairwise_map]
    simp only [Path.relativeText_inner]
    exact sortedWays_pairwise (proper_of_find? hroot hfind)

/-- **What is found** are the files of wanted suffixes that no excluded directory holds. -/
theorem mem_discover {p : Path} : p ∈ f.discover directory extensions excluded ↔
    ∃ e way, f.find? directory = .ok e ∧ e.HasFile way ∧ p = directory.inner way
      ∧ (∃ x ∈ extensions, Text.lower p.suffix = Text.lower x)
      ∧ ∀ n ∈ way.dropLast, n ∉ excluded := by
  constructor
  · intro hp
    cases hfind : f.find? directory with
    | error trouble =>
      unfold discover at hp
      rw [hfind] at hp
      cases hp
    | ok e =>
      rw [discover_of_find? hfind] at hp
      obtain ⟨way, hway, rfl⟩ := List.mem_map.mp hp
      obtain ⟨hfile, hclear, hwanted⟩ := mem_sortedWays.mp hway
      exact ⟨e, way, rfl, hfile, rfl, (isWanted_iff hfile.ne_nil).mp hwanted, hclear⟩
  · rintro ⟨e, way, hfind, hfile, rfl, hwanted, hclear⟩
    rw [discover_of_find? hfind]
    exact List.mem_map.mpr
      ⟨way, mem_sortedWays.mpr ⟨hfile, hclear, (isWanted_iff hfile.ne_nil).mpr hwanted⟩, rfl⟩

/-- **A discovery is exact**: what it finds are the files below the directory whose suffix is
wanted, whatever its letters' case, and that are in no directory of an excluded name below the
first one, each of them once and in the order of their relative paths. -/
theorem discover_exact (hroot : f.root.Proper) (directory : Path)
    (extensions excluded : List String) :
    ((f.discover directory extensions excluded).Pairwise fun p q =>
        directory.relativeText p < directory.relativeText q)
      ∧ ∀ p, p ∈ f.discover directory extensions excluded ↔
        ∃ e way, f.find? directory = .ok e ∧ e.HasFile way ∧ p = directory.inner way
          ∧ (∃ x ∈ extensions, Text.lower p.suffix = Text.lower x)
          ∧ ∀ n ∈ way.dropLast, n ∉ excluded :=
  ⟨discover_pairwise hroot directory extensions excluded, fun _ => mem_discover⟩

/-- A directory with an excluded one beside its source. -/
def nestedSources : Entry :=
  .directory [("obj", .directory [("c.cs", .file #[])]), ("a.cs", .file #[])]

/-- The same below a directory whose own name is excluded. -/
def nestedFiles : Files where
  root := .directory [("obj", .directory [("B.CS", .file #[]), ("src", nestedSources)])]
  here := ⟨"/", []⟩

theorem proper_nestedFiles : nestedFiles.root.Proper := by
  have hobj : (Entry.directory [("c.cs", .file #[])]).Proper :=
    .directory (by simp) (by simp) (by simp) (by simp [Proper.file])
  have hsrc : nestedSources.Proper :=
    .directory (by simp) (by simp) (by simp) (by simp [Proper.file, hobj])
  exact .directory (by simp) (by simp) (by simp) (by
    simpa using Proper.directory (by simp) (by simp) (by simp) (by simp [Proper.file, hsrc]))

/-- The excluded name counts below the directory only, and the case of letters not at all. -/
theorem discover_exact_nested : nestedFiles.root.Proper
    ∧ (nestedFiles.discover ⟨"/", ["obj"]⟩ [".cs"] ["obj"]).Pairwise (fun p q =>
        Path.relativeText ⟨"/", ["obj"]⟩ p < Path.relativeText ⟨"/", ["obj"]⟩ q)
    ∧ ⟨"/", ["obj", "B.CS"]⟩ ∈ nestedFiles.discover ⟨"/", ["obj"]⟩ [".cs"] ["obj"]
    ∧ ⟨"/", ["obj", "src", "a.cs"]⟩ ∈ nestedFiles.discover ⟨"/", ["obj"]⟩ [".cs"] ["obj"]
    ∧ ⟨"/", ["obj", "src", "obj", "c.cs"]⟩
      ∉ nestedFiles.discover ⟨"/", ["obj"]⟩ [".cs"] ["obj"] := by
  obtain ⟨hordered, hfound⟩ := discover_exact proper_nestedFiles ⟨"/", ["obj"]⟩ [".cs"] ["obj"]
  have hupper : Text.lower (Path.suffixOf "B.CS") = Text.lower ".cs" := by decide +kernel
  refine ⟨proper_nestedFiles, hordered, (hfound _).mpr ?_, (hfound _).mpr ?_, fun h => ?_⟩
  · exact ⟨_, ["B.CS"], rfl, .here List.mem_cons_self, rfl,
      ⟨".cs", List.mem_cons_self, hupper⟩, by simp⟩
  · have hfile : nestedSources.HasFile ["a.cs"] :=
      .here (List.mem_cons_of_mem _ List.mem_cons_self)
    exact ⟨_, ["src", "a.cs"], rfl, .inside (List.mem_cons_of_mem _ List.mem_cons_self) hfile, rfl,
      ⟨".cs", List.mem_cons_self, congrArg Text.lower (by decide +kernel)⟩, by simp⟩
  · obtain ⟨e, way, -, -, hway, -, hclear⟩ := (hfound _).mp h
    have hnames : ["obj", "src", "obj", "c.cs"] = "obj" :: way := congrArg Path.names hway
    obtain rfl := (List.cons.inj hnames).2
    exact hclear "obj" (by simp) List.mem_cons_self

end Files

end SyntaxForest
