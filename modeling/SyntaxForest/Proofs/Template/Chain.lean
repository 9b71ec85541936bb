import Mathlib.Data.List.Forall2
import SyntaxForest.Template.View

/-!
# Ranges in order

Siblings of a template, be they bodies, markup runs or constructs, stand in the
order of the source and do not overlap. `Range.Chain low high` says so of a list
of ranges between two offsets; it is a recursion over the list, so that a scanner
that puts one range in front of the rest keeps it by construction.

What the runs of a chain leave of the range is `Segment.gaps`, and gaps and runs
together hold each offset once (`Segment.countP_gaps_add`).
-/

namespace SyntaxForest.Template

namespace Range

/-- **Ranges in order** between two offsets: each begins no earlier than the one
before it ends. -/
def Chain (low high : Nat) : List Range → Prop
  | [] => low ≤ high
  | r :: rest => low ≤ r.start ∧ r.start ≤ r.stop ∧ Chain r.stop high rest

/-- One range ends before another begins. -/
def Before (a b : Range) : Prop := a.stop ≤ b.start

/-- Two ranges have no offset in common. -/
def Disjoint (a b : Range) : Prop := ∀ i, ¬ (a.has i = true ∧ b.has i = true)

theorem has_iff {r : Range} {i : Nat} : r.has i = true ↔ r.start ≤ i ∧ i < r.stop := by
  rw [has, Bool.and_eq_true, decide_eq_true_iff, decide_eq_true_iff]

theorem within_iff {r outer : Range} :
    r.within outer = true ↔ outer.start ≤ r.start ∧ r.stop ≤ outer.stop := by
  rw [within, Bool.and_eq_true, decide_eq_true_iff, decide_eq_true_iff]

namespace Chain

variable {low high low' high' mid : Nat} {r : Range} {a b ranges : List Range}

/-- A chain goes forward. -/
theorem le (h : Chain low high ranges) : low ≤ high := by
  induction ranges generalizing low with
  | nil => exact h
  | cons r rest ih => exact Nat.le_trans h.1 (Nat.le_trans h.2.1 (ih h.2.2))

theorem mono (h : Chain low high ranges) (hl : low' ≤ low) (hh : high ≤ high') :
    Chain low' high' ranges := by
  induction ranges generalizing low low' with
  | nil => exact Nat.le_trans hl (Nat.le_trans h hh)
  | cons r rest ih => exact ⟨Nat.le_trans hl h.1, h.2.1, ih h.2.2 (Nat.le_refl _)⟩

/-- Two chains that meet make one. -/
theorem append (ha : Chain low mid a) (hb : Chain mid high b) : Chain low high (a ++ b) := by
  induction a generalizing low with
  | nil => exact hb.mono ha (Nat.le_refl _)
  | cons r rest ih => exact ⟨ha.1, ha.2.1, ih ha.2.2⟩

/-- Each range of a chain lies between its bounds. -/
theorem of_mem (h : Chain low high ranges) (hr : r ∈ ranges) :
    low ≤ r.start ∧ r.start ≤ r.stop ∧ r.stop ≤ high := by
  induction ranges generalizing low with
  | nil => cases hr
  | cons s rest ih =>
    obtain ⟨hlow, hs, hrest⟩ := h
    rcases List.mem_cons.mp hr with rfl | hr
    · exact ⟨hlow, hs, hrest.le⟩
    · have := ih hrest hr
      omega

/-- The ranges of a chain stand one before the other. -/
theorem pairwise (h : Chain low high ranges) : ranges.Pairwise Before := by
  induction ranges generalizing low with
  | nil => exact .nil
  | cons s rest ih =>
    exact .cons (fun r hr => (h.2.2.of_mem hr).1) (ih h.2.2)

/-- **Chains in the ranges of a chain** are one chain. -/
theorem flatten {parts : List (List Range)} (h : Chain low high ranges)
    (hp : List.Forall₂ (fun r part => Chain r.start r.stop part) ranges parts) :
    Chain low high parts.flatten := by
  induction hp generalizing low with
  | nil => exact h
  | cons hr _ ih =>
    rw [List.flatten_cons]
    exact (hr.mono h.1 (Nat.le_refl _)).append (ih h.2.2)

/-- An offset outside of a chain is in none of its ranges. -/
theorem countP_has_eq_zero (h : Chain low high ranges) {i : Nat} (hi : i < low ∨ high ≤ i) :
    ranges.countP (·.has i) = 0 := by
  rw [List.countP_eq_zero]
  intro r hr hhas
  have := h.of_mem hr
  have := has_iff.mp hhas
  omega

/-- **An offset is in one range of a chain at most.** -/
theorem countP_has_le_one (h : Chain low high ranges) (i : Nat) :
    ranges.countP (·.has i) ≤ 1 := by
  induction ranges generalizing low with
  | nil => exact Nat.zero_le _
  | cons r rest ih =>
    rw [List.countP_cons]
    split
    · next hhas =>
      have hstop := (has_iff.mp hhas).2
      exact Nat.le_of_eq (by rw [countP_has_eq_zero h.2.2 (.inl hstop)])
    · exact ih h.2.2

/-- Two ranges of a chain that share an offset are the same. -/
theorem eq_of_has {s : Range} {i : Nat} (h : Chain low high ranges) (hr : r ∈ ranges)
    (hs : s ∈ ranges) (hri : r.has i = true) (hsi : s.has i = true) : r = s := by
  induction ranges generalizing low with
  | nil => cases hr
  | cons t rest ih =>
    have hlater : ∀ u ∈ rest, u.has i = true → ¬ t.has i = true := by
      intro u hu hui hti
      have := h.2.2.of_mem hu
      have := has_iff.mp hui
      have := has_iff.mp hti
      omega
    rcases List.mem_cons.mp hr with rfl | hr' <;> rcases List.mem_cons.mp hs with rfl | hs'
    · rfl
    · exact absurd hri (hlater s hs' hsi)
    · exact absurd hsi (hlater r hr' hri)
    · exact ih h.2.2 hr' hs'

/-- **A range that is not empty lies in one range of a chain only.** -/
theorem countP_within_eq_one {c : Range} (h : Chain low high ranges) (hc : c.start < c.stop)
    (hr : r ∈ ranges) (hw : c.within r = true) : ranges.countP (c.within ·) = 1 := by
  induction ranges generalizing low with
  | nil => cases hr
  | cons s rest ih =>
    rw [List.countP_cons]
    rcases List.mem_cons.mp hr with rfl | hr
    · have hzero : rest.countP (c.within ·) = 0 := by
        rw [List.countP_eq_zero]
        intro t ht hwt
        have := h.2.2.of_mem ht
        have := within_iff.mp hw
        have := within_iff.mp hwt
        omega
      rw [hzero, if_pos hw]
    · have hno : ¬ c.within s = true := by
        intro hws
        have := h.2.2.of_mem hr
        have := within_iff.mp hw
        have := within_iff.mp hws
        omega
      rw [if_neg hno, ih h.2.2 hr]

end Chain

/-- **Ranges of which each offset is in one at most are disjoint.** -/
theorem pairwise_disjoint_of_countP {ranges : List Range}
    (h : ∀ i, ranges.countP (·.has i) ≤ 1) : ranges.Pairwise Disjoint := by
  induction ranges with
  | nil => exact .nil
  | cons r rest ih =>
    refine .cons (fun s hs i ⟨hr, hsi⟩ => ?_) (ih fun i => ?_)
    · have hpos : 0 < rest.countP (·.has i) := List.countP_pos_iff.mpr ⟨s, hs, hsi⟩
      have hle := h i
      rw [List.countP_cons, if_pos hr] at hle
      omega
    · have hle := h i
      rw [List.countP_cons] at hle
      omega

end Range

/-- A range counts an offset inside it once. -/
theorem Segment.countP_gap (a b i : Nat) :
    (if a < b then [(⟨a, b⟩ : Range)] else []).countP (·.has i)
      = if a ≤ i ∧ i < b then 1 else 0 := by
  by_cases h : a ≤ i ∧ i < b
  · have hhas : (⟨a, b⟩ : Range).has i = true := Range.has_iff.mpr h
    rw [if_pos (by omega : a < b), if_pos h, List.countP_singleton, if_pos hhas]
  · have hhas : ¬ (⟨a, b⟩ : Range).has i = true := fun hh => h (Range.has_iff.mp hh)
    rw [if_neg h]
    split
    · rw [List.countP_singleton, if_neg hhas]
    · rfl

/-- **What runs leave and the runs themselves hold each offset once.** -/
theorem Segment.countP_gaps_add {cursor stop : Nat} {runs : List Range}
    (h : Range.Chain cursor stop runs) (i : Nat) :
    (gaps cursor stop runs).countP (·.has i) + runs.countP (·.has i)
      = if cursor ≤ i ∧ i < stop then 1 else 0 := by
  induction runs generalizing cursor with
  | nil => rw [gaps, countP_gap, List.countP_nil, Nat.add_zero]
  | cons run rest ih =>
    obtain ⟨hlow, hrun, hrest⟩ := h
    have hstop := hrest.le
    have hih := ih hrest
    rw [gaps, List.countP_append, countP_gap, List.countP_cons]
    simp only [Range.has_iff]
    split_ifs at hih ⊢ <;> omega

end SyntaxForest.Template
