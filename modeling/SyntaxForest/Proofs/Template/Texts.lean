import SyntaxForest.Proofs.Template.Merge

/-!
# Where text begins and ends

A text leaf of a template's tree lies in a text of the markup, and its first and its last byte
are ones that the view of the markup shows (`Tight`). Cutting keeps this, because the pieces are
trimmed in the view. So no text begins or ends in code, and a text that shows code of a
construct has two ways to do so: it reaches beyond the construct, or it begins in one of the
construct's runs and ends in a later one (`Tight.crosses`).
-/

namespace SyntaxForest.Template

open SyntaxForest.Template.Span (ofTree)
open SyntaxForest.Tree (preorderAll)
open Segment

/-- A span as wide as a range. -/
def Range.span (r : Range) : Span := ⟨r.start, r.stop⟩

variable {src view : Bytes} {scanned : List Segment} {s : Source}
variable {span cut : Span} {t q x root markup : Tree} {nodes : List Tree}

/-! ## Tight spans -/

/-- **Whether a view shows a byte** at an offset, one that is no blank. -/
def shows (view : Bytes) (i : Nat) : Bool := (view[i]?).any fun b => !Bytes.isBlank b

/-- **A span is tight** in a view that shows its first and its last byte. -/
def Tight (view : Bytes) (span : Span) : Prop :=
  ∃ first last : Nat, span = ⟨first, last + 1⟩ ∧ first ≤ last
    ∧ shows view first = true ∧ shows view last = true

theorem shows_lt {i : Nat} (h : shows view i = true) : i < view.size := by
  obtain ⟨b, hb, -⟩ := (Option.any_eq_true ..).mp h
  exact (Array.getElem?_eq_some_iff.mp hb).1

theorem Tight.stop_le (h : Tight view span) : span.stop ≤ view.size := by
  obtain ⟨first, last, rfl, -, -, hlast⟩ := h
  exact Int.ofNat_le.mpr (shows_lt hlast)

theorem pastBlanks_not_blank {i stop : Nat} (h : pastBlanks view i stop < stop) :
    (view[pastBlanks view i stop]?).any Bytes.isBlank = false := by
  fun_induction pastBlanks view i stop with
  | case1 i hi hblank ih => exact ih h
  | case2 i hi hblank => exact eq_false_of_ne_true hblank
  | case3 i hi => exact absurd h hi

theorem beforeBlanks_not_blank {low n : Nat} (h : low < beforeBlanks view low n) :
    (view[beforeBlanks view low n - 1]?).any Bytes.isBlank = false := by
  fun_induction beforeBlanks view low n with
  | case1 => omega
  | case2 n hn ih => exact ih h
  | case3 n hn => exact eq_false_of_ne_true fun hblank => hn ⟨h, hblank⟩

theorem shows_of_not_blank {i : Nat} (hi : i < view.size)
    (h : (view[i]?).any Bytes.isBlank = false) : shows view i = true := by
  rw [shows, Array.getElem?_eq_getElem hi] at *
  simpa using h

/-- What the check finds tight is tight. -/
theorem tight_of_isTight (h : isTight view span = true) : Tight view span := by
  unfold isTight at h
  simp only [Bool.and_eq_true, decide_eq_true_iff, Bool.not_eq_true'] at h
  obtain ⟨⟨⟨⟨⟨hlow, hhigh⟩, hne⟩, hhead⟩, hlast⟩, -⟩ := h
  have hsize : (view.slice span.start.toNat span.stop.toNat).toList.length
      = span.stop.toNat - span.start.toNat := by
    rw [Array.length_toList, Bytes.slice, Array.size_extract]
    omega
  rw [List.isEmpty_eq_false_iff, ← List.length_pos_iff, hsize] at hne
  rw [List.head?_eq_getElem?, Array.getElem?_toList, getElem?_slice, if_pos (by omega)] at hhead
  rw [List.getLast?_eq_getElem?, Array.getElem?_toList, hsize, getElem?_slice,
    if_pos (by omega)] at hlast
  refine ⟨span.start.toNat, span.stop.toNat - 1, ?_, by omega,
    shows_of_not_blank (by omega) hhead, shows_of_not_blank (by omega) ?_⟩
  · show (⟨span.start, span.stop⟩ : Span) = _
    congr 1 <;> omega
  · rwa [show span.stop.toNat - 1 = span.start.toNat + (span.stop.toNat - span.start.toNat - 1) by
      omega]

/-- **A piece of a text is tight.** -/
theorem piece?_tight {start stop : Int} (h : piece? s start stop = some q)
    (hstop : stop ≤ s.view.size) : Tight s.view (ofTree q) := by
  unfold piece? at h
  dsimp only at h
  split at h
  · next hlt =>
    obtain rfl := Option.some.inj h
    rw [ofTree_spanProperties]
    have hhigh := beforeBlanks_le s.view (pastBlanks s.view start.toNat stop.toNat) stop.toNat
    have hsize : stop.toNat ≤ s.view.size := by omega
    have hlow : pastBlanks s.view start.toNat stop.toNat < stop.toNat := by omega
    refine ⟨pastBlanks s.view start.toNat stop.toNat,
      beforeBlanks s.view (pastBlanks s.view start.toNat stop.toNat) stop.toNat - 1,
      ?_, by omega, ?_, ?_⟩
    · congr 1
      omega
    · exact shows_of_not_blank (by omega) (pastBlanks_not_blank hlow)
    · exact shows_of_not_blank (by omega) (beforeBlanks_not_blank hlt)
  · cases h

/-- What is cut from a tight text is tight. -/
theorem tight_of_mem_cutText (h : Tight s.view span) (hq : q ∈ cutText s span cut) :
    Tight s.view (ofTree q) := by
  obtain ⟨start, stop, hstop, hpiece⟩ := mem_cutText hq
  exact piece?_tight hpiece (Int.le_trans hstop h.stop_le)

/-! ## The texts of a template -/

/-- **Which texts are recorded**: those of the markup are tight, and the code has none. -/
structure RecordedTexts (view : Bytes) (markup : Tree) (nodes : List Tree) : Prop where
  tight : ∀ r ∈ preorderAll markup.children, isTextLeaf r = true → Tight view (ofTree r)
  code : ∀ t ∈ nodes, ∀ u ∈ preorderAll t.children, isTextLeaf u = false

/-- **A text leaf is of the markup** if it is tight and lies in a text of the markup. -/
def TextOf (view : Bytes) (markup x : Tree) : Prop := isTextLeaf x = true →
  Tight view (ofTree x) ∧ ∃ r ∈ preorderAll markup.children,
    isTextLeaf r = true ∧ (ofTree r).contains (ofTree x) = true

/-- **A piece of a text of the markup** is a text of the markup as well. -/
theorem textOf_kept (hcut : cut.start ≤ cut.stop) : Kept s cut (TextOf s.view markup) := by
  intro x q hleaf hq hx _
  obtain ⟨htight, r, hr, hrleaf, hcontains⟩ := hx hleaf
  have hpiece := (cutText_spec s (ofTree x) hcut).1 q hq
  rw [Span.contains_iff] at hcontains
  refine ⟨tight_of_mem_cutText htight hq, r, hr, hrleaf, Span.contains_iff.mpr ?_⟩
  exact ⟨Int.le_trans hcontains.1 hpiece.low, Int.le_trans hpiece.high hcontains.2⟩

/-- **All text is of the markup**, whatever is inserted. -/
theorem insertAll_textOf (hrec : RecordedTexts s.view markup nodes)
    (hnodes : ∀ t ∈ nodes, (ofTree t).start ≤ (ofTree t).stop ∧ t.kind ≠ "Text") :
    ∀ x ∈ preorderAll (insertAll s markup nodes).children, TextOf s.view markup x := by
  have hnone : ∀ {x : Tree}, isTextLeaf x = false → TextOf s.view markup x := by
    intro x hx hleaf
    rw [hx] at hleaf
    cases hleaf
  refine forall_insertAll (fun _ _ _ _ hleaf _ => hnone hleaf) (fun t ht => ?_) fun x hx hleaf => ?_
  · obtain ⟨hcut, hkind⟩ := hnodes t ht
    refine ⟨hcut, textOf_kept hcut, fun w hw => hnone (not_isTextLeaf_of_kind ?_),
      fun x hx => hnone (hrec.code t ht x hx)⟩
    rwa [show w.kind = t.kind from congrArg Prod.fst hw]
  · exact ⟨hrec.tight x hx hleaf, x, hx, hleaf,
      Span.contains_iff.mpr ⟨Int.le_refl _, Int.le_refl _⟩⟩

/-! ## Text and code -/

/-- **What the markup shows is hidden by no construct.** -/
theorem not_hides_of_shows {i : Nat} (h : shows (markupView src scanned) i = true) {s : Segment}
    (hs : s ∈ allSegments scanned) : ¬ s.Hides src i := by
  intro hhides
  have hany : ((allSegments scanned).flatMap (Segment.hidden src)).any (·.has i) = true := by
    rw [List.any_flatMap, List.any_eq_true]
    exact ⟨s, hs, s.any_hidden_iff.mpr hhides⟩
  rw [shows, markupView, getElem?_blankRanges, hany, Option.any_map, Option.any_eq_true] at h
  obtain ⟨b, -, hb⟩ := h
  by_cases hline : b = Bytes.newline
  · rw [hline] at hb
    exact absurd hb (by decide)
  · rw [if_pos ⟨hline, rfl⟩] at hb
    exact absurd hb (by decide)

/-- **A byte of a construct that the markup shows** is in one of its runs. -/
theorem Segment.Nested.exists_run_of_shows {s : Segment} (h : s.Nested)
    (hs : s ∈ allSegments scanned) {i : Nat} (hi : shows (markupView src scanned) i = true)
    (hin : s.range.has i = true) : ∃ run ∈ s.markup, run.has i = true := by
  have hcount := h.countP_code_add i
  have hcode : s.codeRanges.countP (·.has i) = 0 := List.countP_eq_zero.mpr fun r hr hhas =>
    not_hides_of_shows hi hs (.inl ⟨r, hr, hhas⟩)
  rw [hcode, if_pos hin, Nat.zero_add] at hcount
  exact List.countP_pos_iff.mp (hcount ▸ Nat.one_pos)

/-- The code of a construct lies inside it. -/
theorem Segment.Nested.has_of_codeRanges {s : Segment} (h : s.Nested) {r : Range}
    (hr : r ∈ s.codeRanges) {i : Nat} (hi : r.has i = true) : s.range.has i = true := by
  have hcount := h.countP_code_add i
  have hcode : 0 < s.codeRanges.countP (·.has i) := List.countP_pos_iff.mpr ⟨r, hr, hi⟩
  by_contra hout
  rw [if_neg hout] at hcount
  omega

/-- A run holds no code of its construct. -/
theorem Segment.Nested.not_has_of_codeRanges {s : Segment} (h : s.Nested) {r run : Range}
    (hr : r ∈ s.codeRanges) (hrun : run ∈ s.markup) {i : Nat} (hi : r.has i = true) :
    run.has i = false := by
  have hcount := h.countP_code_add i
  have hcode : 0 < s.codeRanges.countP (·.has i) := List.countP_pos_iff.mpr ⟨r, hr, hi⟩
  refine eq_false_of_ne_true fun hhas => ?_
  have hmarkup : 0 < s.markup.countP (·.has i) := List.countP_pos_iff.mpr ⟨run, hrun, hhas⟩
  split at hcount <;> omega

/-- **A tight span inside a construct** begins in one of its runs and ends in one. -/
theorem Tight.exists_runs (h : Tight (markupView src scanned) span) {s : Segment} (hn : s.Nested)
    (hs : s ∈ allSegments scanned) (hin : s.range.span.contains span = true) :
    ∃ first last : Nat, span = ⟨first, last + 1⟩ ∧ first ≤ last
      ∧ shows (markupView src scanned) first = true ∧ shows (markupView src scanned) last = true
      ∧ (∃ run ∈ s.markup, run.has first = true) ∧ ∃ run ∈ s.markup, run.has last = true := by
  obtain ⟨first, last, rfl, hle, hfirst, hlast⟩ := h
  rw [Span.contains_iff] at hin
  simp only [Range.span] at hin
  refine ⟨first, last, rfl, hle, hfirst, hlast, hn.exists_run_of_shows hs hfirst ?_,
    hn.exists_run_of_shows hs hlast ?_⟩ <;> rw [Range.has_iff] <;> omega

/-- **A span crosses the code of a construct** at an offset: it begins in a run before the
offset and ends in a run behind it. -/
def Crosses (s : Segment) (span : Span) (i : Nat) : Prop :=
  ∃ before ∈ s.markup, ∃ behind ∈ s.markup,
    before.start ≤ span.start ∧ span.start < before.stop ∧ before.stop ≤ i
      ∧ i < behind.start ∧ behind.start < span.stop ∧ span.stop ≤ behind.stop

/-- **How a tight span comes to hold code**: it reaches beyond the construct, or it crosses
the code. -/
theorem Tight.crosses (h : Tight (markupView src scanned) span) {s : Segment} (hn : s.Nested)
    (hs : s ∈ allSegments scanned) {r : Range} (hr : r ∈ s.codeRanges) {i : Nat}
    (hi : r.has i = true) (hstart : span.start ≤ i) (hstop : i < span.stop) :
    s.range.span.contains span = false ∨ Crosses s span i := by
  refine or_iff_not_imp_left.mpr fun hin => ?_
  obtain ⟨first, last, rfl, -, -, -, ⟨a, ha, hfirst⟩, ⟨b, hb, hlast⟩⟩ :=
    h.exists_runs hn hs (eq_true_of_ne_false hin)
  have hia := hn.not_has_of_codeRanges hr ha hi
  have hib := hn.not_has_of_codeRanges hr hb hi
  rw [Bool.eq_false_iff, ne_eq, Range.has_iff] at hia hib
  rw [Range.has_iff] at hfirst hlast
  refine ⟨a, ha, b, hb, ?_⟩
  dsimp only at hstart hstop ⊢
  omega

end SyntaxForest.Template
