import SyntaxForest.Proofs.Files.Names
import SyntaxForest.Proofs.Work

/-!
# Names that patterns give

A pattern names files by the shape of their paths. Some of the names on such a path are found in
the tree, others are taken from the pattern itself. Both stand between slashes, so the paths that
a pattern names are read back from their texts (`Files.Written.of_mem_matching`).

A name that is taken from the pattern may be too long for a file. The pieces in front of it lead
to the places where that is found out (`Files.Leads`), and it is found out nowhere else
(`Files.error_mem_select_iff`).
-/

namespace SyntaxForest

/-- **A piece of a pattern** whose name, if it gives one, stands between slashes. -/
def PathPiece.Written : PathPiece → Prop
  | .exactly n => Path.IsPart n
  | _ => True

theorem PathPiece.written_ofName {n : String} (hn : Path.IsPart n) {piece : PathPiece}
    (h : ofName n = .ok piece) : piece.Written := by
  unfold ofName at h
  split at h
  · rw [← Except.ok.inj h]; trivial
  · split at h
    · cases h
    · split at h
      · rw [← Except.ok.inj h]; trivial
      · rw [← Except.ok.inj h]; exact hn

theorem PathPiece.written_ofText {s : String} {pieces : List PathPiece}
    (h : ofText s = .ok pieces) : ∀ piece ∈ pieces, piece.Written := by
  unfold ofText at h
  dsimp only at h
  split at h
  · cases h
  · cases hnames : (Path.ofText s).names.mapM ofName with
    | error _ => rw [hnames] at h; cases h
    | ok named =>
      rw [hnames] at h
      have hnamed : ∀ piece ∈ named, piece.Written := fun piece hpiece => by
        obtain ⟨n, hn, hpiece⟩ := mem_of_mapM_eq_ok hnames hpiece
        exact written_ofName (Path.written_ofText s n hn) hpiece
      obtain rfl := Except.ok.inj h
      split
      · exact List.forall_mem_append.mpr ⟨hnamed, List.forall_mem_singleton.mpr trivial⟩
      · exact hnamed

namespace Files

variable {f : Files} {p q directory : Path}

/-- **What the pieces of a pattern select** has a path whose names stand between slashes. -/
theorem Written.of_mem_select (hf : f.Written) {pieces : List PathPiece}
    (hpieces : ∀ piece ∈ pieces, piece.Written) {start : Path} (hstart : start.Written)
    (h : .ok p ∈ f.select pieces start) : p.Written := by
  induction pieces generalizing start with
  | nil =>
    rw [select, List.mem_singleton] at h
    exact Except.ok.inj h ▸ hstart
  | cons piece rest ih =>
    rw [List.forall_mem_cons] at hpieces
    have hgo : ∀ way, (∀ n ∈ way, Path.IsPart n) → .ok p ∈ f.select rest (start.inner way) →
        p.Written := fun way hway => ih hpieces.2 (hstart.inner hway)
    cases piece with
    | directory => exact ih hpieces.2 hstart h
    | exactly n =>
      rw [select] at h
      split at h
      · cases List.mem_singleton.mp h
      · cases h
      · split at h
        · exact hgo [n] (List.forall_mem_singleton.mpr hpieces.1) h
        · cases h
    | shaped shape =>
      rw [select, List.mem_flatMap] at h
      obtain ⟨⟨n, e⟩, hentry, h⟩ := h
      dsimp only at h
      split at h
      · exact hgo [n] (List.forall_mem_singleton.mpr (hf.isPart_of_mem_entriesAt hentry)) h
      · cases h
    | anyDirectories =>
      rw [select] at h
      cases hfind : f.find? start with
      | error _ => rw [hfind] at h; cases h
      | ok e =>
        rw [hfind, List.mem_flatMap] at h
        obtain ⟨way, hway, h⟩ := h
        exact hgo way (Entry.isPart_directoryWays e (hf.of_find? hfind) way hway) h

/-- **What a pattern names** has a path whose names stand between slashes. -/
theorem Written.of_mem_matching (hf : f.Written) (hdirectory : directory.Written)
    {pattern : String} {found : List Path} (h : f.matching directory pattern = .ok found)
    (hp : p ∈ found) : p.Written := by
  unfold matching at h
  cases hpieces : PathPiece.ofText pattern with
  | error _ => rw [hpieces] at h; cases h
  | ok pieces =>
    rw [hpieces] at h
    dsimp only at h
    split at h
    · split at h
      · cases h
      · next hselect =>
        obtain rfl := Except.ok.inj h
        rw [List.mem_mergeSort, List.mem_filter] at hp
        obtain ⟨r, hr, rfl⟩ := mem_of_mapM_eq_ok hselect hp.1
        exact hf.of_mem_select (PathPiece.written_ofText hpieces) hdirectory hr
    · obtain rfl := Except.ok.inj h
      cases hp

/-! ## Names that are too long -/

/-- **How pieces lead on below a path**: what is left of them, and the path that is reached. -/
inductive Leads (f : Files) : List PathPiece → Path → List PathPiece → Path → Prop
  | here {pieces start} : Leads f pieces start pieces start
  | directory {rest start left reached} (h : Leads f rest start left reached) :
      Leads f (.directory :: rest) start left reached
  | exactly {n rest start left reached e} (hfind : f.find? (start.inner [n]) = .ok e)
      (hon : (rest.isEmpty || e.isDirectory) = true)
      (h : Leads f rest (start.inner [n]) left reached) :
      Leads f (.exactly n :: rest) start left reached
  | shaped {shape rest start left reached named} (hentry : named ∈ f.entriesAt start)
      (hon : ((rest.isEmpty || named.2.isDirectory)
        && NamePiece.matchesAll shape named.1.toList) = true)
      (h : Leads f rest (start.inner [named.1]) left reached) :
      Leads f (.shaped shape :: rest) start left reached
  | anyDirectories {rest start left reached e way} (hfind : f.find? start = .ok e)
      (hway : way ∈ e.directoryWays) (h : Leads f rest (start.inner way) left reached) :
      Leads f (.anyDirectories :: rest) start left reached

variable {pieces : List PathPiece} {start : Path}

/-- What is selected behind the pieces that lead on is selected. -/
theorem Leads.mem_select {left : List PathPiece} {reached : Path} {r : Except Path Path}
    (h : f.Leads pieces start left reached) (hr : r ∈ f.select left reached) :
    r ∈ f.select pieces start := by
  induction h with
  | here => exact hr
  | directory _ ih =>
    rw [select]
    exact ih hr
  | exactly hfind hon _ ih =>
    rw [select]
    unfold Path.inner at hfind
    rw [hfind]
    dsimp only
    rw [if_pos hon]
    exact ih hr
  | shaped hentry hon _ ih =>
    rw [select, List.mem_flatMap]
    refine ⟨_, hentry, ?_⟩
    dsimp only
    rw [if_pos hon]
    exact ih hr
  | anyDirectories hfind hway _ ih =>
    rw [select, hfind]
    exact List.mem_flatMap.mpr ⟨_, hway, ih hr⟩

/-- **A name is found to be too long** where the pieces in front of it lead to. -/
theorem error_mem_select_iff : .error p ∈ f.select pieces start ↔
    ∃ n left reached, f.Leads pieces start (.exactly n :: left) reached
      ∧ p = reached.inner [n] ∧ f.find? p = .error .nameTooLong := by
  constructor
  · intro h
    induction pieces generalizing start with
    | nil =>
      rw [select, List.mem_singleton] at h
      cases h
    | cons piece rest ih =>
      cases piece with
      | directory =>
        obtain ⟨n, left, reached, hleads, hp⟩ := ih h
        exact ⟨n, left, reached, .directory hleads, hp⟩
      | exactly n =>
        rw [select] at h
        split at h
        · next hlong =>
          obtain rfl := Except.error.inj (List.mem_singleton.mp h)
          exact ⟨n, rest, start, .here, rfl, hlong⟩
        · cases h
        · next e hfind =>
          split at h
          · next hon =>
            obtain ⟨n', left, reached, hleads, hp⟩ := ih h
            exact ⟨n', left, reached, .exactly hfind hon hleads, hp⟩
          · cases h
      | shaped shape =>
        rw [select, List.mem_flatMap] at h
        obtain ⟨named, hentry, h⟩ := h
        dsimp only at h
        split at h
        · next hon =>
          obtain ⟨n, left, reached, hleads, hp⟩ := ih h
          exact ⟨n, left, reached, .shaped hentry hon hleads, hp⟩
        · cases h
      | anyDirectories =>
        rw [select] at h
        cases hfind : f.find? start with
        | error _ => rw [hfind] at h; cases h
        | ok e =>
          rw [hfind, List.mem_flatMap] at h
          obtain ⟨way, hway, h⟩ := h
          obtain ⟨n, left, reached, hleads, hp⟩ := ih h
          exact ⟨n, left, reached, .anyDirectories hfind hway hleads, hp⟩
  · rintro ⟨n, left, reached, hleads, rfl, hlong⟩
    refine hleads.mem_select ?_
    rw [select]
    unfold Path.inner at hlong
    rw [hlong]
    exact List.mem_cons_self

end Files

end SyntaxForest
