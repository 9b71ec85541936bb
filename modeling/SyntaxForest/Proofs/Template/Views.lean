import Mathlib.Algebra.Order.BigOperators.Group.List
import Mathlib.Algebra.Order.Ring.Nat
import SyntaxForest.Proofs.Template.Layout
import SyntaxForest.Template.View

/-!
# What the views show

The markup and each part of the code are parsed from views of their own. Every view
is the stretch of the source that it stands for with some bytes blanked
(`Blanked`), and no byte of the source is shown by two of them: a part of the code
shows nothing outside the code of its construct (`Nested.countP_shown_le`), the
markup shows no code, and the code of a scan is disjoint.

The two ways of blanking are written apart, the one over the code of all constructs
and the other over the runs of one part. That they are complementary rests on
`Nested.parts_chain`: a run that holds an offset of a part lies inside that part.
-/

namespace SyntaxForest.Template

open Range Segment

variable {src : Bytes} {ranges : List Range} {scanned : List Segment} {i : Nat} {b : UInt8}

/-! ## Blanked stretches -/

/-- **A view of a stretch of the source**: as long as the stretch, with its newlines
where they were, and with each other byte kept or replaced by a space. -/
structure Blanked (src : Bytes) (part : Range) (view : Bytes) : Prop where
  inside : part.start ≤ part.stop ∧ part.stop ≤ src.size
  size_eq : view.size = part.stop - part.start
  newline_iff : ∀ i < view.size,
    view[i]? = some Bytes.newline ↔ src[part.start + i]? = some Bytes.newline
  kept_or_space : ∀ i b, view[i]? = some b → src[part.start + i]? = some b ∨ b = 0x20

/-- **Byte by byte**, blanking leaves newlines and what is in no range. -/
theorem getElem?_blankRanges (src : Bytes) (ranges : List Range) (i : Nat) :
    (blankRanges src ranges)[i]? = src[i]?.map fun b =>
      if b ≠ Bytes.newline ∧ ranges.any (·.has i) then 0x20 else b := by
  rw [blankRanges, Array.getElem?_mapIdx]

theorem getElem?_slice (src : Bytes) (start stop i : Nat) :
    (src.slice start stop)[i]?
      = if i < min stop src.size - start then src[start + i]? else none :=
  Array.getElem?_extract

theorem blanked_slice {part : Range} (hp : part.start ≤ part.stop) (hs : part.stop ≤ src.size) :
    Blanked src part ((blankRanges src ranges).slice part.start part.stop) := by
  have hsize : ((blankRanges src ranges).slice part.start part.stop).size
      = part.stop - part.start := by
    rw [Bytes.slice, Array.size_extract, size_blankRanges, Nat.min_eq_left hs]
  refine ⟨⟨hp, hs⟩, hsize, fun i hi => ?_, fun i b hb => ?_⟩
  · rw [getElem?_slice, size_blankRanges, Nat.min_eq_left hs, if_pos (hsize ▸ hi),
      getElem?_blankRanges]
    cases src[part.start + i]? with
    | none => simp
    | some b =>
      by_cases hb : b = Bytes.newline
      · simp [hb]
      · simp only [Option.map_some, Option.some.injEq, hb, iff_false]
        split
        · decide
        · exact hb
  · rw [getElem?_slice] at hb
    split at hb
    · rw [getElem?_blankRanges, Option.map_eq_some_iff] at hb
      obtain ⟨c, hc, rfl⟩ := hb
      split
      · exact .inr rfl
      · exact .inl hc
    · cases hb

/-- A source with ranges blanked is a blanked source. -/
theorem blanked_blankRanges : Blanked src ⟨0, src.size⟩ (blankRanges src ranges) := by
  have hself : (blankRanges src ranges).slice 0 src.size = blankRanges src ranges := by
    rw [Bytes.slice, ← size_blankRanges src ranges, Array.extract_size]
  exact hself ▸ blanked_slice (Nat.zero_le _) (Nat.le_refl src.size)

/-! ## Views and what they show -/

/-- **A view** and the offset of the source at which it begins. -/
structure View where
  start : Nat
  bytes : Bytes

/-- The byte of a view at an offset of the source. -/
def View.at? (v : View) (i : Nat) : Option UInt8 :=
  if v.start ≤ i then v.bytes[i - v.start]? else none

theorem View.at?_mk (start : Nat) (bytes : Bytes) (i : Nat) :
    (⟨start, bytes⟩ : View).at? i = if start ≤ i then bytes[i - start]? else none := rfl

/-- The bytes behind the part. -/
def CodeView.closing (v : CodeView) : Bytes :=
  match v.wrapper with
  | some _ => Bytes.ofText "\x7d"
  | none => #[]

/-- A part of the code as it is parsed, without its wrapper. -/
def CodeView.inner (v : CodeView) : Bytes :=
  v.text.slice v.lead.size (v.text.size - v.closing.size)

/-- The view of a part, its wrapper left aside. -/
def CodeView.view (v : CodeView) : View := ⟨v.part.start, v.inner⟩

/-- **The views of a template**: its markup, and each part of the code of each
construct. -/
def views (src : Bytes) (scanned : List Segment) : List View :=
  ⟨0, markupView src scanned⟩
    :: (allSegments scanned).flatMap fun s => (codeViews src s).map CodeView.view

/-- What a construct hides of the markup at an offset: its code, and the two bytes
of an `@:` that opens one of its runs. -/
def Segment.Hides (src : Bytes) (s : Segment) (i : Nat) : Prop :=
  (∃ r ∈ s.codeRanges, r.has i = true)
    ∨ ∃ run ∈ s.markup, src[run.start]? = some 0x40 ∧ src[run.start + 1]? = some 0x3A
      ∧ (i = run.start ∨ i = run.start + 1)

/-- A byte is hidden by one of the ranges of a construct if the construct hides it. -/
theorem Segment.any_hidden_iff (s : Segment) :
    (s.hidden src).any (·.has i) = true ↔ s.Hides src i := by
  rw [hidden, List.any_append, Bool.or_eq_true, List.any_eq_true]
  refine or_congr Iff.rfl ?_
  rw [lineMarks, List.any_map, List.any_filter, List.any_eq_true]
  refine exists_congr fun run => and_congr_right fun _ => ?_
  have hmark : src.hasAt [0x40, 0x3A] run.start = true
      ↔ src[run.start]? = some 0x40 ∧ src[run.start + 1]? = some 0x3A := by
    simp [Bytes.hasAt]
  have hhas : (⟨run.start, run.start + 2⟩ : Range).has i = true
      ↔ i = run.start ∨ i = run.start + 1 := by
    rw [has_iff]
    show run.start ≤ i ∧ i < run.start + 2 ↔ _
    omega
  rw [Bool.and_eq_true, hmark, and_assoc]
  exact and_congr_right fun _ => and_congr_right fun _ => hhas

theorem slice_middle (a b c : Bytes) :
    (a ++ b ++ c).slice a.size ((a ++ b ++ c).size - c.size) = b := by
  have hsize : (a ++ b ++ c).size - c.size = a.size + b.size := by
    rw [Array.size_append, Nat.add_sub_cancel, Array.size_append]
  rw [Bytes.slice, hsize, Array.append_assoc, Array.extract_append_right,
    Array.extract_append_left, Array.extract_size]

/-- The views of a construct are those of its parts of code. -/
theorem codeViews_part (src : Bytes) (s : Segment) :
    (codeViews src s).map CodeView.part = s.codeParts := by
  rw [codeViews, List.map_map]
  exact List.map_id _

/-- Without its wrapper, a view is the part without the runs inside it. -/
theorem codeViews_inner {s : Segment} {v : CodeView} (hv : v ∈ codeViews src s) :
    v.part ∈ s.codeParts ∧ v.inner = codeOf src s.markup v.part
      ∧ v.text = v.lead ++ v.inner ++ v.closing := by
  obtain ⟨part, hpart, rfl⟩ := List.mem_map.mp hv
  have htext : ∀ w : CodeView, w.text = w.lead ++ codeOf src s.markup part ++ w.closing →
      w.inner = codeOf src s.markup part ∧ w.text = w.lead ++ w.inner ++ w.closing := by
    intro w hw
    have hinner : w.inner = codeOf src s.markup part := by
      rw [CodeView.inner, hw, slice_middle]
    exact ⟨hinner, hinner ▸ hw⟩
  refine ⟨hpart, htext _ ?_⟩
  unfold CodeView.lead CodeView.closing
  split <;> simp_all

/-! ## No byte is shown twice -/

/-- Whether a part of the code shows an offset: it holds it, and no run inside the
part does. -/
def showsAt (runs : List Range) (part : Range) (i : Nat) : Bool :=
  part.has i && !(runs.filter (·.within part)).any (·.has i)

/-- A byte that blanking would change is shown only where it is not blanked. -/
theorem blankRanges_eq_some (hi : src[i]? = some b) (hspace : b ≠ 0x20)
    (hline : b ≠ Bytes.newline) :
    (blankRanges src ranges)[i]? = some b ↔ ranges.any (·.has i) = false := by
  rw [getElem?_blankRanges, hi, Option.map_some, Option.some.injEq]
  by_cases hany : ranges.any (·.has i) = true
  · rw [if_pos ⟨hline, hany⟩, hany]
    exact ⟨fun h => absurd h.symm hspace, fun h => nomatch h⟩
  · rw [if_neg fun h => hany h.2]
    exact ⟨fun _ => eq_false_of_ne_true hany, fun _ => rfl⟩

/-- **What a view of code shows** of a byte that is neither a space nor a newline. -/
theorem at?_codeOf (runs : List Range) {part : Range} (hp : part.stop ≤ src.size)
    (hi : src[i]? = some b) (hspace : b ≠ 0x20) (hline : b ≠ Bytes.newline) :
    (⟨part.start, codeOf src runs part⟩ : View).at? i = some b ↔ showsAt runs part i = true := by
  rw [View.at?_mk, showsAt, Bool.and_eq_true, has_iff, Bool.not_eq_true',
    ← blankRanges_eq_some hi hspace hline]
  by_cases hlow : part.start ≤ i
  · rw [if_pos hlow, codeOf, getElem?_slice, size_blankRanges, Nat.min_eq_left hp,
      Nat.add_sub_cancel' hlow]
    by_cases hhigh : i < part.stop
    · rw [if_pos (by omega)]
      exact ⟨fun h => ⟨⟨hlow, hhigh⟩, h⟩, fun h => h.2⟩
    · rw [if_neg (by omega)]
      exact ⟨fun h => (nomatch h), fun h => absurd h.1.2 hhigh⟩
  · rw [if_neg hlow]
    exact ⟨fun h => (nomatch h), fun h => absurd h.1.1 hlow⟩

/-- The ranges that are parsed as code are among the parts. -/
theorem Segment.codeParts_sublist (s : Segment) : s.codeParts.Sublist s.parts := by
  unfold codeParts parts
  split
  · next r hr =>
    rw [hr]
    exact List.sublist_append_left [r] s.bodies
  · split
    · exact List.nil_sublist _
    · exact List.sublist_append_right _ _

/-- A run that holds an offset of a part lies inside that part, so a part that shows
an offset holds it outside of all runs. -/
theorem Segment.Nested.countP_runs_eq_zero {s : Segment} (h : s.Nested) {part : Range}
    (hpart : part ∈ s.parts) (hshows : showsAt s.markup part i = true) :
    s.markup.countP (·.has i) = 0 := by
  rw [showsAt, Bool.and_eq_true, Bool.not_eq_true', List.any_eq_false] at hshows
  rw [List.countP_eq_zero]
  intro run hrun hhas
  obtain ⟨other, hother, hwithin⟩ := h.runs_inside run hrun
  have hin : other.has i = true := by
    have := has_iff.mp hhas
    have := within_iff.mp hwithin
    exact has_iff.mpr (by omega)
  have heq := h.parts_chain.eq_of_has hother hpart hin hshows.1
  exact hshows.2 run (List.mem_filter.mpr ⟨hrun, heq ▸ hwithin⟩) hhas

/-- **A part of the code shows only the code of its construct**, and no offset is
shown by two parts. -/
theorem Segment.Nested.countP_shown_le {s : Segment} (h : s.Nested) (i : Nat) :
    s.codeParts.countP (showsAt s.markup · i) ≤ s.codeRanges.countP (·.has i) := by
  refine Nat.le_trans (s.codeParts_sublist.countP_le) ?_
  by_cases hshow : ∃ part ∈ s.parts, showsAt s.markup part i = true
  · obtain ⟨part, hpart, hshows⟩ := hshow
    -- outside of all runs, the offset is in the construct's code once
    have hbounds := h.parts_chain.of_mem hpart
    have hcode := h.countP_code_add i
    rw [h.countP_runs_eq_zero hpart hshows, Nat.add_zero] at hcode
    rw [showsAt, Bool.and_eq_true] at hshows
    have hin := has_iff.mp hshows.1
    rw [hcode, if_pos (has_iff.mpr (by simp only [range]; omega))]
    refine Nat.le_trans (List.countP_mono_left fun p _ hp => ?_) (h.parts_chain.countP_has_le_one i)
    rw [showsAt, Bool.and_eq_true] at hp
    exact hp.1
  · rw [List.countP_eq_zero.mpr fun part hpart hp => hshow ⟨part, hpart, hp⟩]
    exact Nat.zero_le _

/-- The views of a construct show an offset no more often than its code holds it. -/
theorem Segment.Nested.countP_views_le {s : Segment} (h : s.Nested) (hs : s.stop ≤ src.size)
    (hi : src[i]? = some b) (hspace : b ≠ 0x20) (hline : b ≠ Bytes.newline) :
    ((codeViews src s).map CodeView.view).countP (·.at? i == some b)
      ≤ s.codeRanges.countP (·.has i) := by
  have hviews : (codeViews src s).map CodeView.view
      = s.codeParts.map fun part => ⟨part.start, codeOf src s.markup part⟩ := by
    rw [← codeViews_part src s, List.map_map]
    refine List.map_congr_left fun v hv => ?_
    rw [CodeView.view, (codeViews_inner hv).2.1]
    rfl
  rw [hviews, List.countP_map]
  refine Nat.le_trans (List.countP_mono_left fun part hpart hat => ?_) (h.countP_shown_le i)
  have hbounds := h.parts_chain.of_mem (s.codeParts_sublist.subset hpart)
  exact (at?_codeOf s.markup (Nat.le_trans hbounds.2.2 hs) hi hspace hline).mp (beq_iff_eq.mp hat)

/-- The markup shows no code. -/
theorem countP_codeAll_eq_zero (hi : src[i]? = some b) (hspace : b ≠ 0x20)
    (hline : b ≠ Bytes.newline) (hat : (markupView src scanned)[i]? = some b) :
    (codeAll scanned).countP (·.has i) = 0 := by
  rw [markupView, blankRanges_eq_some hi hspace hline, List.any_flatMap, allSegments_eq,
    List.any_eq_false] at hat
  rw [codeAll, List.countP_eq_zero]
  intro r hr hhas
  obtain ⟨s, hs, hrs⟩ := List.mem_flatMap.mp hr
  exact hat s hs (s.any_hidden_iff.mpr (.inl ⟨r, hrs, hhas⟩))

/-- **No byte is shown twice.** An offset that holds neither a space nor a newline is
shown by one of the views at most. -/
theorem countP_views_le_one (h : Scanned 0 src.size scanned) (hi : src[i]? = some b)
    (hspace : b ≠ 0x20) (hline : b ≠ Bytes.newline) :
    (views src scanned).countP (·.at? i == some b) ≤ 1 := by
  have hcode : ((allSegments scanned).flatMap fun s =>
      (codeViews src s).map CodeView.view).countP (·.at? i == some b)
        ≤ (codeAll scanned).countP (·.has i) := by
    rw [allSegments_eq, codeAll, List.countP_flatMap, List.countP_flatMap]
    refine List.sum_le_sum fun s hs => ?_
    exact (h.2 s hs).countP_views_le (h.bounds hs).2 hi hspace hline
  have hone := Nat.le_trans (countP_codeAll_le h.2 i) (h.1.countP_has_le_one i)
  rw [views, List.countP_cons]
  split
  -- what the markup shows is no code
  · next hat =>
    rw [beq_iff_eq, View.at?_mk, if_pos (Nat.zero_le i)] at hat
    have hzero := countP_codeAll_eq_zero hi hspace hline hat
    omega
  · omega

/-- A part of the code is a stretch of the source, inside its wrapper. -/
theorem codeView_blanked (h : Scanned 0 src.size scanned) {s : Segment}
    (hs : s ∈ allSegments scanned) {v : CodeView} (hv : v ∈ codeViews src s) :
    Blanked src v.part v.inner ∧ v.text = v.lead ++ v.inner ++ v.closing := by
  obtain ⟨hpart, hinner, htext⟩ := codeViews_inner hv
  rw [allSegments_eq] at hs
  have hbounds := (h.2 s hs).parts_chain.of_mem (s.codeParts_sublist.subset hpart)
  have hstop := (h.bounds hs).2
  refine ⟨?_, htext⟩
  rw [hinner]
  exact blanked_slice hbounds.2.1 (Nat.le_trans hbounds.2.2 hstop)

/-- **What the views of a template show.** Each is a stretch of the source with some
bytes blanked, a part of the code inside its wrapper; no byte but a space or a newline
is shown by two of them; and the markup shows every byte that no construct hides. -/
theorem scan_views (h : scan src = .ok scanned) :
    Blanked src ⟨0, src.size⟩ (markupView src scanned)
      ∧ (∀ s ∈ allSegments scanned, ∀ v ∈ codeViews src s,
        Blanked src v.part v.inner ∧ v.text = v.lead ++ v.inner ++ v.closing)
      ∧ (∀ i b, src[i]? = some b → b ≠ 0x20 → b ≠ Bytes.newline →
        (views src scanned).countP (·.at? i == some b) ≤ 1)
      ∧ ∀ i b, src[i]? = some b →
        ((b ≠ Bytes.newline ∧ ∃ s ∈ allSegments scanned, s.Hides src i) →
          (markupView src scanned)[i]? = some 0x20)
        ∧ ((b = Bytes.newline ∨ ∀ s ∈ allSegments scanned, ¬ s.Hides src i) →
          (markupView src scanned)[i]? = some b) := by
  have hscanned := scan_scanned h
  refine ⟨blanked_blankRanges, fun s hs v hv => codeView_blanked hscanned hs hv,
    fun i b hi hspace hline => ?_, fun i b hi => ⟨fun hhides => ?_, fun hshown => ?_⟩⟩
  · exact countP_views_le_one hscanned hi hspace hline
  · obtain ⟨hline, s, hs, hhides⟩ := hhides
    rw [markupView, getElem?_blankRanges, hi, List.any_flatMap, Option.map_some, if_pos]
    exact ⟨hline, List.any_eq_true.mpr ⟨s, hs, s.any_hidden_iff.mpr hhides⟩⟩
  · rw [markupView, getElem?_blankRanges, hi, List.any_flatMap, Option.map_some, if_neg]
    rintro ⟨hline, hany⟩
    obtain ⟨s, hs, hhides⟩ := List.any_eq_true.mp hany
    rcases hshown with rfl | hshown
    · exact hline rfl
    · exact hshown s hs (s.any_hidden_iff.mp hhides)

/-- `@{@:a @b⏎c}`: the markup shows `a`, the code its last line. -/
theorem scan_views_line : ∃ scanned,
    scan #[0x40, 0x7B, 0x40, 0x3A, 0x61, 0x20, 0x40, 0x62, 0x0A, 0x63, 0x7D] = .ok scanned
      ∧ (views #[0x40, 0x7B, 0x40, 0x3A, 0x61, 0x20, 0x40, 0x62, 0x0A, 0x63, 0x7D]
          scanned).map View.bytes
        = [#[0x20, 0x20, 0x20, 0x20, 0x61, 0x20, 0x20, 0x20, 0x0A, 0x20, 0x20],
          #[0x20, 0x20, 0x20, 0x20, 0x20, 0x20, 0x0A, 0x63]]
      ∧ (views #[0x40, 0x7B, 0x40, 0x3A, 0x61, 0x20, 0x40, 0x62, 0x0A, 0x63, 0x7D]
          scanned).countP (·.at? 9 == some 0x63) ≤ 1 := by
  have hrun : (scan #[0x40, 0x7B, 0x40, 0x3A, 0x61, 0x20, 0x40, 0x62, 0x0A, 0x63, 0x7D]).map
      (fun scanned => (views #[0x40, 0x7B, 0x40, 0x3A, 0x61, 0x20, 0x40, 0x62, 0x0A, 0x63, 0x7D]
        scanned).map View.bytes)
        = .ok [#[0x20, 0x20, 0x20, 0x20, 0x61, 0x20, 0x20, 0x20, 0x0A, 0x20, 0x20],
          #[0x20, 0x20, 0x20, 0x20, 0x20, 0x20, 0x0A, 0x63]] := by
    decide +kernel
  obtain ⟨scanned, hscan, hviews⟩ := Answers.exists_of_map hrun
  exact ⟨scanned, hscan, hviews, (scan_views hscan).2.2.1 9 0x63 rfl (by decide) (by decide)⟩

end SyntaxForest.Template
