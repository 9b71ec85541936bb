import SyntaxForest.Proofs.Template.Soundness

/-!
# A text cut at two spans

A piece of a text has no blanks at its ends, so it depends on its range only through the bytes in
it that are no blanks (`piece?_congr`). Cutting a piece is therefore cutting the range that it was
taken from (`flatMap_cutAt_piece?`), and a text that is cut at two spans with a gap between them
falls into the same pieces in either order (`cutAt_comm`).

This is asked of texts that a cut has left, or that look as if one had (`AsCut`). A text of the
markup may begin or end with blanks, and these are lost by the first cut only.
-/

namespace SyntaxForest.Template

open SyntaxForest.Template.Span (ofTree)

variable {s : Source} {a b cut : Span} {x q y : Tree} {view : Bytes} {i j i' j' : Int}

/-! ## What a piece depends on -/

/-- **No blank at an offset** of a view. -/
def Solid (view : Bytes) (n : Nat) : Prop := (view[n]?).any Bytes.isBlank = false

/-- **The ends of what a range shows**: its first and its last offset without a blank. -/
structure Ends (view : Bytes) (i j : Int) (first last : Nat) : Prop where
  low : i ≤ first
  le : first ≤ last
  high : last < j
  solid_first : Solid view first
  solid_last : Solid view last
  within : ∀ n : Nat, i ≤ n → n < j → Solid view n → first ≤ n ∧ n ≤ last

theorem Ends.iff {first last : Nat} (h : Ends view i j first last) (n : Nat) (hn : Solid view n) :
    i ≤ n ∧ n < j ↔ (first : Int) ≤ n ∧ (n : Int) < (last + 1 : Nat) := by
  obtain ⟨hlow, hle, hhigh, -, -, hwithin⟩ := h
  refine ⟨fun hin => ?_, fun hin => by omega⟩
  have := hwithin n hin.1 hin.2 hn
  omega

/-- A range is blank, or it has ends. -/
theorem blank_or_ends (view : Bytes) (i j : Int) :
    (∀ n : Nat, i ≤ n → n < j → ¬ Solid view n) ∨ ∃ first last, Ends view i j first last := by
  have hstart := le_pastBlanks view i.toNat j.toNat
  rcases Nat.lt_or_ge (pastBlanks view i.toNat j.toNat) j.toNat with hlt | hge
  · have hfirst : Solid view (pastBlanks view i.toNat j.toNat) := pastBlanks_not_blank hlt
    have hstop : pastBlanks view i.toNat j.toNat
        < beforeBlanks view (pastBlanks view i.toNat j.toNat) j.toNat := lt_beforeBlanks hlt hfirst
    have hlast := beforeBlanks_not_blank hstop
    have hhigh := beforeBlanks_le view (pastBlanks view i.toNat j.toNat) j.toNat
    refine .inr ⟨_, beforeBlanks view (pastBlanks view i.toNat j.toNat) j.toNat - 1, by omega,
      by omega, by omega, hfirst, hlast, fun n hi hj hn => ⟨pastBlanks_le (by omega) hn, ?_⟩⟩
    have hbefore : n < beforeBlanks view (pastBlanks view i.toNat j.toNat) j.toNat :=
      lt_beforeBlanks (by omega) hn
    omega
  · refine .inl fun n hi hj hn => ?_
    have hpast : pastBlanks view i.toNat j.toNat ≤ n := pastBlanks_le (by omega) hn
    omega

/-- The text leaf of a range of a source. -/
def textLeaf (s : Source) (first stop : Nat) : Tree :=
  .node "Text" (spanProperties s.lines ⟨first, stop⟩
    ++ [("text", .text (Lexical.textOf s.bytes first stop))]) []

/-- Where the view is blank there is no piece. -/
theorem piece?_of_blank (h : ∀ n : Nat, i ≤ n → n < j → ¬ Solid s.view n) :
    piece? s i j = none := by
  refine Option.eq_none_iff_forall_ne_some.mpr fun q hq => ?_
  unfold piece? at hq
  dsimp only at hq
  split at hq
  · next hlt =>
    have hstart := le_pastBlanks s.view i.toNat j.toNat
    have hstop := beforeBlanks_le s.view (pastBlanks s.view i.toNat j.toNat) j.toNat
    have hsolid : Solid s.view (pastBlanks s.view i.toNat j.toNat) :=
      pastBlanks_not_blank (by omega)
    exact h _ (by omega) (by omega) hsolid
  · cases hq

/-- **The piece of a range** goes from its first byte without a blank to its last. -/
theorem piece?_of_ends {first last : Nat} (h : Ends s.view i j first last) :
    piece? s i j = some (textLeaf s first (last + 1)) := by
  obtain ⟨hlow, hle, hhigh, hfirst, hlast, hwithin⟩ := h
  have hstart : pastBlanks s.view i.toNat j.toNat = first := by
    have hle' : pastBlanks s.view i.toNat j.toNat ≤ first := pastBlanks_le (by omega) hfirst
    have hge := le_pastBlanks s.view i.toNat j.toNat
    have := hwithin (pastBlanks s.view i.toNat j.toNat) (by omega) (by omega)
      (pastBlanks_not_blank (by omega))
    omega
  have hstop : beforeBlanks s.view first j.toNat = last + 1 := by
    have hlt : last < beforeBlanks s.view first j.toNat := lt_beforeBlanks (by omega) hlast
    have hle' := beforeBlanks_le s.view first j.toNat
    have := hwithin (beforeBlanks s.view first j.toNat - 1) (by omega) (by omega)
      (beforeBlanks_not_blank (by omega))
    omega
  unfold piece?
  dsimp only
  rw [hstart, hstop, if_pos (Nat.lt_succ_of_le hle)]
  rfl

/-- **A piece depends on its range only through what is no blank.** -/
theorem piece?_congr (h : ∀ n : Nat, Solid s.view n → (i ≤ n ∧ n < j ↔ i' ≤ n ∧ n < j')) :
    piece? s i j = piece? s i' j' := by
  rcases blank_or_ends s.view i j with hblank | ⟨first, last, hends⟩
  · rw [piece?_of_blank hblank, piece?_of_blank fun n hi hj hn => ?_]
    obtain ⟨hi, hj⟩ := (h n hn).mpr ⟨hi, hj⟩
    exact hblank n hi hj hn
  · have hends' : Ends s.view i' j' first last := by
      obtain ⟨hlow, hle, hhigh, hfirst, hlast, hwithin⟩ := hends
      have hin := (h first hfirst).mp (by omega)
      have hin' := (h last hlast).mp (by omega)
      refine ⟨hin.1, hle, hin'.2, hfirst, hlast, fun n hi hj hn => ?_⟩
      obtain ⟨hi, hj⟩ := (h n hn).mpr ⟨hi, hj⟩
      exact hwithin n hi hj hn
    rw [piece?_of_ends hends, piece?_of_ends hends']

theorem piece?_of_le (h : j ≤ i) : piece? s i j = none :=
  piece?_of_blank fun n hi hj _ => by omega

/-! ## Cutting a piece -/

theorem cutText_congr (h : ∀ n : Nat, Solid s.view n → (i ≤ n ∧ n < j ↔ i' ≤ n ∧ n < j')) :
    cutText s ⟨i, j⟩ cut = cutText s ⟨i', j'⟩ cut := by
  unfold cutText
  dsimp only
  congr 1
  refine congrArg₂ _ (piece?_congr fun n hn => ?_) (congrArg₂ _ (piece?_congr fun n hn => ?_)
    (congrArg₂ _ (piece?_congr fun n hn => ?_) rfl)) <;>
  · have := h n hn
    omega

/-- A range beside the cut stays whole. -/
theorem cutText_beside (h : j ≤ cut.start ∨ cut.stop ≤ i) (hcut : cut.start < cut.stop) :
    cutText s ⟨i, j⟩ cut = (piece? s i j).toList := by
  rw [cutText_eq]
  dsimp only
  rcases h with h | h
  · rw [Int.min_eq_left h, piece?_of_le (i := max i cut.start) (by omega),
      piece?_of_le (i := max i cut.stop) (by omega)]
    simp
  · rw [piece?_of_le (j := min j cut.start) (by omega),
      piece?_of_le (j := min j cut.stop) (by omega), Int.max_eq_left h]
    simp

/-- **Cutting a piece** is cutting the range that it was taken from. -/
theorem flatMap_cutAt_piece? (hcut : cut.start < cut.stop) (i j : Int) :
    (piece? s i j).toList.flatMap (cutAt s cut) = cutText s ⟨i, j⟩ cut := by
  rcases blank_or_ends s.view i j with hblank | ⟨first, last, hends⟩
  · have hempty : cutText s ⟨i, j⟩ cut = cutText s ⟨i, i⟩ cut := by
      refine cutText_congr fun n hn => ⟨fun h => ?_, fun h => by omega⟩
      exact absurd hn (hblank n h.1 h.2)
    rw [piece?_of_blank hblank, hempty, cutText_eq, piece?_of_le (by dsimp only; omega),
      piece?_of_le (by dsimp only; omega), piece?_of_le (by dsimp only; omega)]
    rfl
  · have hspan : ofTree (textLeaf s first (last + 1)) = ⟨first, (last + 1 : Nat)⟩ :=
      ofTree_spanProperties ..
    have hleaf : isTextLeaf (textLeaf s first (last + 1)) = true := rfl
    rw [cutText_congr hends.iff, piece?_of_ends hends, Option.toList_some, List.flatMap_singleton,
      cutAt, hspan, hleaf, Bool.true_and]
    split
    · rfl
    · next hover =>
      rw [Bool.not_eq_true, Span.overlaps_eq_false_iff] at hover
      rw [cutText_beside hover.symm hcut, ← piece?_congr hends.iff, piece?_of_ends hends]
      rfl

/-! ## Two cuts -/

/-- **Two spans with a gap between them**, neither of them empty. -/
def Detached (a b : Span) : Prop :=
  a.start < a.stop ∧ b.start < b.stop ∧ (a.stop < b.start ∨ b.stop < a.start)

theorem Detached.symm (h : Detached a b) : Detached b a := ⟨h.2.1, h.1, h.2.2.symm⟩

theorem Detached.not_contains (h : Detached a b) : a.contains b = false := by
  obtain ⟨ha, hb, hgap⟩ := h
  rw [Bool.eq_false_iff, Ne, Span.contains_iff]
  omega

/-- **A text as a cut leaves it**: it ends in the source, and is the piece of its own range. -/
def AsCut (s : Source) (x : Tree) : Prop := isTextLeaf x = true →
  (ofTree x).stop ≤ s.view.size ∧ piece? s (ofTree x).start (ofTree x).stop = some x

/-- A text that a cut has left is not empty. -/
theorem AsCut.start_lt_stop (hx : AsCut s x) (hleaf : isTextLeaf x = true) :
    (ofTree x).start < (ofTree x).stop := (piece?_spec (hx hleaf).2).2.2.1

theorem cutAt_of_not_isTextLeaf (h : isTextLeaf x = false) : cutAt s cut x = [x] := by
  rw [cutAt, h]
  rfl

/-- What a span does not touch it does not cut. -/
theorem cutAt_of_not_overlaps (h : (ofTree x).overlaps cut = false) : cutAt s cut x = [x] := by
  rw [cutAt, h, Bool.and_false]
  rfl

theorem AsCut.cutAt_eq (hx : AsCut s x) (hleaf : isTextLeaf x = true)
    (hcut : cut.start < cut.stop) : cutAt s cut x = cutText s (ofTree x) cut := by
  have hpiece := flatMap_cutAt_piece? (s := s) hcut (ofTree x).start (ofTree x).stop
  rwa [(hx hleaf).2, Option.toList_some, List.flatMap_singleton] at hpiece

/-- The pieces of two cuts, one after the other. -/
theorem cutText_flatMap_cutAt (s : Source) (i j : Int) (a : Span) (hb : b.start < b.stop) :
    (cutText s ⟨i, j⟩ a).flatMap (cutAt s b)
      = cutText s ⟨i, min j a.start⟩ b
        ++ (cutText s ⟨max i a.start, min j a.stop⟩ b ++ cutText s ⟨max i a.stop, j⟩ b) := by
  rw [cutText_eq s ⟨i, j⟩ a, List.flatMap_append, List.flatMap_append, flatMap_cutAt_piece? hb,
    flatMap_cutAt_piece? hb, flatMap_cutAt_piece? hb]

/-- **A text cut at two detached spans** falls into the same pieces in either order. -/
theorem cutText_comm (hab : Detached a b) (i j : Int) :
    (cutText s ⟨i, j⟩ a).flatMap (cutAt s b) = (cutText s ⟨i, j⟩ b).flatMap (cutAt s a) := by
  wlog hlt : a.stop < b.start generalizing a b
  · exact (this hab.symm (hab.2.2.resolve_left hlt)).symm
  obtain ⟨ha, hb, -⟩ := hab
  rw [cutText_flatMap_cutAt s i j a hb, cutText_flatMap_cutAt s i j b ha,
    cutText_beside (i := i) (j := min j a.start) (.inl (by omega)) hb,
    cutText_beside (i := max i a.start) (.inl (by omega)) hb,
    cutText_beside (i := max i b.start) (.inr (by omega)) ha,
    cutText_beside (i := max i b.stop) (.inr (by omega)) ha, cutText_eq, cutText_eq]
  -- five pieces are left, and each has the same range in either order
  have hfirst : min (min j b.start) a.start = min j a.start := by omega
  have hsecond : min (min j b.start) a.stop = min j a.stop := by omega
  have hfourth : max (max i a.stop) b.start = max i b.start := by omega
  have hfifth : max (max i a.stop) b.stop = max i b.stop := by omega
  rw [hfirst, hsecond, hfourth, hfifth, List.append_assoc, List.append_assoc]

/-- **A text falls into the same pieces**, whichever of two cuts comes first. -/
theorem cutAt_comm (hab : Detached a b) (hx : AsCut s x) :
    (cutAt s a x).flatMap (cutAt s b) = (cutAt s b x).flatMap (cutAt s a) := by
  cases hleaf : isTextLeaf x with
  | false =>
    rw [cutAt_of_not_isTextLeaf hleaf, cutAt_of_not_isTextLeaf hleaf, List.flatMap_singleton,
      List.flatMap_singleton, cutAt_of_not_isTextLeaf hleaf, cutAt_of_not_isTextLeaf hleaf]
  | true =>
    rw [hx.cutAt_eq hleaf hab.1, hx.cutAt_eq hleaf hab.2.1]
    exact cutText_comm hab _ _

end SyntaxForest.Template
