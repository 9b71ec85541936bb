import SyntaxForest.Files.Pattern
import SyntaxForest.Proofs.Files.Discovery
import SyntaxForest.Proofs.Files.Paths

/-!
# Names between slashes

Whoever asks for the analyzer of a file gives the text of its path, and the suffix is read off
that text again. It is the suffix of the file's name only if the path can be read back from its
text (`ofText_text`), and that takes names as they stand between slashes: not empty, not a dot,
and without slashes. Names that are read off texts are of this kind, and so are the names of a
tree as a disk holds it; every path that is put together from both keeps it.
-/

namespace SyntaxForest

namespace Path

/-- **A name as it stands between slashes.** -/
structure IsPart (n : String) : Prop where
  ne_empty : n ≠ ""
  ne_dot : n ≠ "."
  slash : '/' ∉ n.toList

instance (n : String) : Decidable (IsPart n) :=
  decidable_of_iff (n ≠ "" ∧ n ≠ "." ∧ '/' ∉ n.toList)
    ⟨fun h => ⟨h.1, h.2.1, h.2.2⟩, fun h => ⟨h.ne_empty, h.ne_dot, h.slash⟩⟩

/-- **A path whose names stand between slashes.** -/
def Written (p : Path) : Prop := ∀ n ∈ p.names, IsPart n

instance (p : Path) : Decidable p.Written :=
  inferInstanceAs (Decidable (∀ n ∈ p.names, IsPart n))

variable {p q : Path} {names : List String}

/-! ## Paths from texts -/

theorem namesOf_eq (s : String) : namesOf s
    = ((Text.splitAfter '/' [] [] s.toList).map String.ofList).filter
        fun n => n != "" && n != "." := rfl

theorem isPart_of_mem_namesOf {s n : String} (h : n ∈ namesOf s) : IsPart n := by
  rw [namesOf_eq, List.mem_filter, List.mem_map, Bool.and_eq_true, bne_iff_ne, bne_iff_ne] at h
  obtain ⟨⟨piece, hpiece, rfl⟩, hempty, hdot⟩ := h
  refine ⟨hempty, hdot, ?_⟩
  rw [String.toList_ofList]
  exact Text.not_mem_splitAfter hpiece List.not_mem_nil

theorem written_ofText (s : String) : (ofText s).Written := fun _ => isPart_of_mem_namesOf

theorem Written.join (hp : p.Written) (hq : q.Written) : (p.join q).Written :=
  fun n hn => (mem_names_join hn).elim (hp n) (hq n)

theorem Written.resolve (hp : p.Written) (hq : q.Written) : (Path.resolve p q).Written :=
  fun n hn => hp.join hq n (mem_takeSteps hn).1

theorem Written.parent (hp : p.Written) : p.parent.Written :=
  fun n hn => hp n (List.dropLast_subset _ hn)

theorem Written.inner (hp : p.Written) (hnames : ∀ n ∈ names, IsPart n) :
    (p.inner names).Written :=
  fun n hn => (List.mem_append.mp hn).elim (hp n) (hnames n)

/-! ## Texts of paths -/

/-- The names between slashes are read back. -/
theorem namesOf_rooted (h : ∀ n ∈ names, IsPart n) :
    namesOf ("/" ++ Text.join "/" names) = names := by
  rcases eq_or_ne names [] with rfl | hne
  · decide +kernel
  have htext : ("/" ++ Text.join "/" names).toList = [] ++ '/' :: (Text.join "/" names).toList := by
    rw [String.toList_append]
    rfl
  have hback : names.map (String.ofList ∘ String.toList) = names :=
    List.map_id'' (fun _ => String.ofList_toList) names
  have hkept : (names.filter fun n => n != "" && n != ".") = names := by
    refine List.filter_eq_self.mpr fun n hn => ?_
    rw [Bool.and_eq_true, bne_iff_ne, bne_iff_ne]
    exact ⟨(h n hn).ne_empty, (h n hn).ne_dot⟩
  rw [namesOf_eq, htext, Text.splitAfter_append,
    Text.splitAfter_join hne fun n hn => (h n hn).slash, Text.splitAfter, List.map_append,
    List.map_map, hback, List.filter_append, hkept]
  rfl

/-- Names do not begin with a slash. -/
theorem takeWhile_join (h : ∀ n ∈ names, IsPart n) :
    (Text.join "/" names).toList.takeWhile (· == '/') = [] := by
  cases names with
  | nil => rfl
  | cons n rest =>
    obtain ⟨hempty, -, hslash⟩ := h n List.mem_cons_self
    obtain ⟨c, cs, hn⟩ := List.exists_cons_of_ne_nil fun hnil =>
      hempty (String.toList_eq_nil_iff.mp hnil)
    obtain ⟨more, hmore⟩ : ∃ more, (Text.join "/" (n :: rest)).toList = n.toList ++ more := by
      cases rest with
      | nil => exact ⟨[], (List.append_nil _).symm⟩
      | cons m rest => exact ⟨_, Text.toList_join_cons n m rest⟩
    rw [hmore, hn, List.cons_append, List.takeWhile_cons_of_neg]
    rintro heq
    exact hslash (hn ▸ eq_of_beq heq ▸ List.mem_cons_self)

/-- **A path from the root is read back from its text.** -/
theorem ofText_text (hroot : p.root = "/") (h : p.Written) : ofText p.text = p := by
  have htext : p.text = "/" ++ Text.join "/" p.names := by
    rw [text, hroot, if_neg fun hempty => absurd hempty.1 (by decide)]
  have hslashes : (p.text.toList.takeWhile (· == '/')).length = 1 := by
    rw [htext, String.toList_append]
    show (('/' :: (Text.join "/" p.names).toList).takeWhile (· == '/')).length = 1
    rw [List.takeWhile_cons_of_pos (by decide), takeWhile_join h]
    rfl
  unfold ofText
  dsimp only
  rw [hslashes, htext, namesOf_rooted h, ← hroot]
  rfl

end Path

/-! ## Names in trees -/

namespace Entry

/-- **A tree whose names stand between slashes.** -/
inductive Written : Entry → Prop
  | file (content : Bytes) : Written (.file content)
  | directory {es : List (String × Entry)} (hnames : ∀ e ∈ es, Path.IsPart e.1)
      (hinner : ∀ e ∈ es, Written e.2) : Written (.directory es)

variable {e : Entry} {es : List (String × Entry)} {way : List String}

theorem Written.isPart (h : Written (.directory es)) {named : String × Entry}
    (hin : named ∈ es) : Path.IsPart named.1 := by
  cases h with
  | directory hnames _ => exact hnames named hin

theorem Written.inside (h : Written (.directory es)) {named : String × Entry}
    (hin : named ∈ es) : named.2.Written := by
  cases h with
  | directory _ hinner => exact hinner named hin

/-- The names on the way to a file. -/
theorem HasFile.isPart (h : HasFile e way) (he : e.Written) : ∀ n ∈ way, Path.IsPart n := by
  induction h with
  | here hin => exact List.forall_mem_singleton.mpr (he.isPart hin)
  | inside hin _ ih => exact List.forall_mem_cons.mpr ⟨he.isPart hin, ih (he.inside hin)⟩

mutual

/-- The names on the way to a directory. -/
theorem isPart_directoryWays : ∀ (e : Entry), e.Written →
    ∀ way ∈ e.directoryWays, ∀ n ∈ way, Path.IsPart n
  | .file _, _ => by
    rw [directoryWays]
    exact fun _ hway => absurd hway List.not_mem_nil
  | .directory es, he => by
    rw [directoryWays, List.forall_mem_cons]
    exact ⟨fun _ hn => absurd hn List.not_mem_nil,
      isPart_directoryWaysIn es fun _ hin => ⟨he.isPart hin, he.inside hin⟩⟩

theorem isPart_directoryWaysIn : ∀ (es : List (String × Entry)),
    (∀ e ∈ es, Path.IsPart e.1 ∧ e.2.Written) →
    ∀ way ∈ directoryWaysIn es, ∀ n ∈ way, Path.IsPart n
  | [], _ => by
    rw [directoryWaysIn]
    exact fun _ hway => absurd hway List.not_mem_nil
  | named :: rest, hes => by
    rw [List.forall_mem_cons] at hes
    rw [directoryWaysIn, List.forall_mem_append]
    exact ⟨isPart_directoryWaysAt named hes.1.1 hes.1.2, isPart_directoryWaysIn rest hes.2⟩

theorem isPart_directoryWaysAt : ∀ (named : String × Entry), Path.IsPart named.1 →
    named.2.Written → ∀ way ∈ directoryWaysAt named, ∀ n ∈ way, Path.IsPart n
  | (name, e), hname, he => by
    rw [directoryWaysAt, List.forall_mem_map]
    exact fun way hway => List.forall_mem_cons.mpr ⟨hname, isPart_directoryWays e he way hway⟩

end

end Entry

/-! ## Paths in a tree -/

namespace Files

/-- **Files as a disk holds them**: all names stand between slashes. -/
structure Written (f : Files) : Prop where
  root : f.root.Written
  here : f.here.Written

variable {f : Files} {p q directory : Path} {extensions excluded : List String}

theorem Written.of_find? (hf : f.Written) {e : Entry} (h : f.find? p = .ok e) : e.Written :=
  find?_induction (fun _ he _ hin => he.inside hin) hf.root h

theorem Written.isPart_of_mem_entriesAt (hf : f.Written) {named : String × Entry}
    (h : named ∈ f.entriesAt p) : Path.IsPart named.1 := by
  unfold Files.entriesAt at h
  cases hfind : f.find? p with
  | error _ => rw [hfind] at h; cases h
  | ok e =>
    have he := hf.of_find? hfind
    rw [hfind] at h
    cases e with
    | file _ => cases h
    | directory es => exact he.isPart h

theorem Written.resolve (hf : f.Written) (hp : p.Written) : (f.resolve p).Written :=
  hf.here.resolve hp

/-- **What a discovery finds** has a path whose names stand between slashes. -/
theorem Written.of_mem_discover (hf : f.Written) (hdirectory : directory.Written)
    (h : p ∈ f.discover directory extensions excluded) : p.Written := by
  obtain ⟨e, way, hfind, hfile, rfl, -, -⟩ := mem_discover.mp h
  exact hdirectory.inner (hfile.isPart (hf.of_find? hfind))

end Files

end SyntaxForest
