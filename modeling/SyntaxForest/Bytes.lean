/-!
# Bytes

A source file as the analysis sees it: an array of bytes, addressed by offset.
A range is half open, and a search or a slice whose range leaves the source
sees only the part inside it. Readers are shown lines and columns in place of
offsets (`LineIndex`).
-/

namespace SyntaxForest

/-- **The bytes of a file**, or of a part of one. -/
abbrev Bytes := Array UInt8

namespace Bytes

/-- The UTF-8 bytes of a text. -/
def ofText (s : String) : Bytes := s.toUTF8.data

/-- The bytes of an ASCII text, for constants that are compared with a source. -/
def ofAscii (s : String) : List UInt8 := s.toList.map fun c => UInt8.ofNat c.toNat

/-- The bytes of the range `start`, …, `stop - 1`. -/
def slice (src : Bytes) (start stop : Nat) : Bytes := src.extract start stop

/-- Whether the bytes from `i` on begin with `needle`. -/
def hasAt (src : Bytes) : List UInt8 → Nat → Bool
  | [], _ => true
  | b :: needle, i => src[i]? == some b && hasAt src needle (i + 1)

/-- **The first occurrence of `needle` that lies inside the range.** -/
def find (src : Bytes) (needle : List UInt8) (start stop : Nat) : Option Nat :=
  if start + needle.length ≤ min stop src.size then
    if src.hasAt needle start then some start else src.find needle (start + 1) stop
  else none
termination_by stop + 1 - start
decreasing_by omega

/-- An occurrence lies inside the range that was searched, and inside the
source. -/
theorem find_bounds {src : Bytes} {needle : List UInt8} {start stop i : Nat}
    (h : src.find needle start stop = some i) :
    start ≤ i ∧ i + needle.length ≤ stop ∧ i + needle.length ≤ src.size := by
  fun_induction find src needle start stop with
  | case1 start hle hat => simp at h; omega
  | case2 start hle hat ih => have := ih h; omega
  | case3 => simp at h

@[simp] theorem hasAt_singleton {src : Bytes} {b : UInt8} {i : Nat} :
    src.hasAt [b] i = true ↔ src[i]? = some b := by
  simp [hasAt]

/-- **What is found** is the first occurrence that lies inside the range. -/
theorem find_eq_some_iff {src : Bytes} {needle : List UInt8} {start stop i : Nat} :
    src.find needle start stop = some i
      ↔ (start ≤ i ∧ i + needle.length ≤ min stop src.size ∧ src.hasAt needle i = true)
        ∧ ∀ j, start ≤ j → j < i → ¬ src.hasAt needle j = true := by
  fun_induction find src needle start stop with
  | case1 start hle hat =>
    rw [Option.some.injEq]
    refine ⟨?_, fun h => ?_⟩
    · rintro rfl
      exact ⟨⟨Nat.le_refl _, hle, hat⟩, fun j hj hlt => absurd hj (Nat.not_le.mpr hlt)⟩
    · rcases Nat.eq_or_lt_of_le h.1.1 with heq | hlt
      · exact heq
      · exact absurd hat (h.2 start (Nat.le_refl _) hlt)
  | case2 start hle hat ih =>
    rw [ih]
    refine ⟨fun h => ⟨⟨Nat.le_of_succ_le h.1.1, h.1.2⟩, fun j hj hlt => ?_⟩, fun h => ?_⟩
    · rcases Nat.eq_or_lt_of_le hj with rfl | hj
      · exact hat
      · exact h.2 j hj hlt
    · have hne : start ≠ i := by
        rintro rfl
        exact hat h.1.2.2
      exact ⟨⟨Nat.lt_of_le_of_ne h.1.1 hne, h.1.2⟩, fun j hj => h.2 j (Nat.le_of_succ_le hj)⟩
  | case3 start hgt =>
    refine ⟨fun h => (nomatch h), fun h => absurd ?_ hgt⟩
    have := h.1.1
    have := h.1.2.1
    omega

/-- **Nothing is found** if nothing occurs inside the range. -/
theorem find_eq_none_iff {src : Bytes} {needle : List UInt8} {start stop : Nat} :
    src.find needle start stop = none
      ↔ ∀ j, start ≤ j → j + needle.length ≤ min stop src.size → ¬ src.hasAt needle j = true := by
  fun_induction find src needle start stop with
  | case1 start hle hat =>
    exact ⟨fun h => (nomatch h), fun h => absurd hat (h start (Nat.le_refl _) (by omega))⟩
  | case2 start hle hat ih =>
    rw [ih]
    refine ⟨fun h j hj => ?_, fun h j hj => h j (Nat.le_of_succ_le hj)⟩
    rcases Nat.eq_or_lt_of_le hj with rfl | hj
    · exact fun _ => hat
    · exact h j hj
  | case3 start hgt => exact iff_of_true rfl fun j hj hle => absurd hle (by omega)

/-! ## Classes of bytes -/

/-- The newline. -/
abbrev newline : UInt8 := 0x0A

/-- Space, tab, return and newline: the blanks between words. -/
def isBlank (b : UInt8) : Bool := b == 0x20 || b == 0x09 || b == 0x0D || b == 0x0A

/-- The six ASCII white space bytes, which never count as content. -/
def isWhite (b : UInt8) : Bool := isBlank b || b == 0x0C || b == 0x0B

/-- A byte that may begin a word: an ASCII letter, the underscore, or any byte of
a character beyond ASCII. -/
def startsWord (b : UInt8) : Bool :=
  b == 0x5F || (0x41 ≤ b && b ≤ 0x5A) || (0x61 ≤ b && b ≤ 0x7A) || 0x80 ≤ b

/-- A byte that may continue a word. -/
def inWord (b : UInt8) : Bool := startsWord b || (0x30 ≤ b && b ≤ 0x39)

/-- How many bytes are not white space: the size by which errors are weighed. -/
def contentLength (src : Bytes) : Nat := src.countP fun b => !isWhite b

/-- **Blanking**: every byte becomes a space but the newlines, so that offsets,
lines and columns all stay what they were. -/
def blank (src : Bytes) : Bytes := src.map fun b => if b == newline then newline else 0x20

@[simp] theorem size_blank (src : Bytes) : src.blank.size = src.size := by simp [blank]

end Bytes

/-! ## Lines and columns

An offset of a source is shown as a line, counted from one, and a column, the
number of bytes since the line began. A line begins at the source's start and
after every newline.
-/

/-- **The offsets at which lines begin**, in order. -/
structure LineIndex where
  starts : List Nat
  deriving Repr

namespace LineIndex

/-- The line starts of a source. -/
def ofSource (src : Bytes) : LineIndex :=
  ⟨0 :: (src.toList.zipIdx.filter fun (b, _) => b == Bytes.newline).map fun (_, i) => i + 1⟩

/-- **The line and column of an offset**: the last line that begins at or before
it. Before every line there is only the place that a negative offset names, on
line zero, counted back from where the last line begins. -/
def position (lines : LineIndex) (offset : Int) : Int × Int :=
  match (lines.starts.takeWhile fun (s : Nat) => (s : Int) ≤ offset).getLast? with
  | some start =>
    ((lines.starts.takeWhile fun (s : Nat) => (s : Int) ≤ offset).length, offset - start)
  | none => (0, offset - lines.starts.getLast?.getD 0)

end LineIndex

end SyntaxForest
