import SyntaxForest.Proofs.Template.Matching
import SyntaxForest.Proofs.Text.Decoding

/-!
# A text that fills a range

A rule of the scanner sees the source through a range. If the range is filled by a text
(`Bytes.Fills`), the rule is a function of that text: what is skipped is what `List.takeWhile`
takes (`Fills.skipWhile`), the word that is read is the text's leading word (`Fills.wordAt`), and
a bracket whose content is well formed is closed where the content ends (`Fills.closing`). A
range is filled part by part, from the left: behind a part that was read, the rest fills what is
left of the range (`Fills.behind`). The end of the range needs no case of its own, it is where the
text is used up.
-/

namespace SyntaxForest.Bytes

open Template Template.Lexical

variable {src : Bytes} {text rest inner : List UInt8} {b c : UInt8} {i stop : Nat}

/-- **A text fills a range**: it stands where the range begins, and ends where the range does. -/
def Fills (src : Bytes) (text : List UInt8) (i stop : Nat) : Prop :=
  src.Spells text i ∧ stop = i + text.length

/-- The identifier that a text begins with; none if it begins with another byte. -/
def leadingWord (text : List UInt8) : List UInt8 :=
  if text.head?.any startsWord then text.takeWhile inWord else []

namespace Fills

/-- **Behind a part**, the rest of the text fills the rest of the range. -/
theorem behind (h : src.Fills (text ++ rest) i stop) : src.Fills rest (i + text.length) stop :=
  ⟨h.1.right, by rw [h.2, List.length_append, Nat.add_assoc]⟩

theorem tail (h : src.Fills (b :: text) i stop) : src.Fills text (i + 1) stop := by
  rw [← List.singleton_append] at h
  exact h.behind

theorem lt (h : src.Fills (b :: text) i stop) : i < stop := by
  rw [h.2, List.length_cons]
  omega

theorem le (h : src.Fills text i stop) : i ≤ stop := h.2 ▸ Nat.le_add_right _ _

/-- A range that is filled ends inside the source. -/
theorem stop_le (h : src.Fills (b :: text) i stop) : stop ≤ src.size := by
  have := h.1.lt_size (j := text.length) (Nat.lt_succ_self _)
  rw [h.2, List.length_cons]
  omega

/-! ## Bytes -/

theorem byteAt (h : src.Fills (b :: text) i stop) : Lexical.byteAt src i = .ok b :=
  byteAt_of_eq h.1.head

/-- The byte behind the first is the next one of the text, or zero. -/
theorem byteAfter (h : src.Fills (b :: text) i stop) :
    Lexical.byteAfter src i stop = .ok (text.headD 0) := by
  cases text with
  | nil => exact if_neg (by rw [h.2, List.length_singleton]; exact Nat.lt_irrefl _)
  | cons c text => exact byteAfter_of_eq h.tail.1.head h.tail.lt

/-- The byte at the beginning of the window is the first of its text. -/
theorem isAt (h : src.Fills text i stop) :
    Lexical.isAt src b i stop = .ok (text.head? == some b) := by
  cases text with
  | nil => exact isAt_end (Nat.le_of_eq h.2)
  | cons c text =>
    rw [Lexical.isAt, if_pos h.lt, h.byteAt]
    rfl

/-- A word begins in the window if its text begins as one. -/
theorem wordStartsAt (h : src.Fills text i stop) :
    Lexical.wordStartsAt src i stop = .ok (text.head?.any startsWord) := by
  cases text with
  | nil => exact wordStartsAt_end (Nat.le_of_eq h.2)
  | cons c text =>
    rw [Lexical.wordStartsAt, if_pos h.lt, h.byteAt]
    rfl

/-! ## Blanks and words -/

/-- **What is skipped** is what the text begins with of the class. -/
theorem skipWhile {p : UInt8 → Bool} (h : src.Fills text i stop) :
    Lexical.skipWhile p src i stop
      = .ok ⟨i + (text.takeWhile p).length, Nat.le_add_right _ _⟩ := by
  induction text generalizing i with
  | nil =>
    have hend : ¬ i < stop := Nat.not_lt.mpr (Nat.le_of_eq h.2)
    rw [Lexical.skipWhile, if_neg hend]
    rfl
  | cons b text ih =>
    rw [Lexical.skipWhile, if_pos h.lt, bind_of_eq h.byteAt]
    by_cases hb : p b = true
    · rw [if_pos hb, bind_of_eq (ih h.tail)]
      refine congrArg Except.ok (Subtype.ext ?_)
      rw [List.takeWhile_cons_of_pos hb, List.length_cons]
      exact Nat.succ_add_eq_add_succ i _
    · rw [if_neg hb]
      refine congrArg Except.ok (Subtype.ext ?_)
      rw [List.takeWhile_cons_of_neg hb]
      rfl

/-- **A part that is all of a class is skipped**, if what follows it is not of the class. -/
theorem skipWhile_append {p : UInt8 → Bool} (h : src.Fills (text ++ rest) i stop)
    (hall : ∀ b ∈ text, p b = true) (hrest : ∀ b ∈ rest.head?, p b = false) :
    Lexical.skipWhile p src i stop = .ok ⟨i + text.length, Nat.le_add_right _ _⟩ := by
  have htake : (text ++ rest).takeWhile p = text := by
    rw [List.takeWhile_append_of_pos hall]
    cases rest with
    | nil => exact List.append_nil _
    | cons b rest =>
      rw [List.takeWhile_cons_of_neg (ne_true_of_eq_false (hrest b rfl)), List.append_nil]
  rw [h.skipWhile, htake]

/-- **The word that is read** is the text's leading word. -/
theorem wordAt (h : src.Fills text i stop) :
    Lexical.wordAt src i stop
      = .ok (Text.Utf8.decodeLenient (leadingWord text).toArray,
          ⟨i + (leadingWord text).length, Nat.le_add_right _ _⟩) := by
  rw [Lexical.wordAt, bind_of_eq h.wordStartsAt, leadingWord]
  split
  · rw [identifierEnd, bind_of_eq h.skipWhile]
    have hsplit : src.Spells (text.takeWhile inWord ++ text.dropWhile inWord) i := by
      rw [List.takeWhile_append_dropWhile]
      exact h.1
    show Except.ok (textOf src i (i + (text.takeWhile inWord).length), _) = _
    rw [textOf, hsplit.left.slice_eq]
  · rw [Text.Utf8.decodeLenient_empty]
    rfl

/-! ## Brackets -/

/-- **A bracket is closed where its content ends**, whatever follows. -/
theorem closing {k : Bracket} (h : src.Fills (k.opener :: (inner ++ k.closer :: rest)) i stop)
    (hinner : k.Content inner k.closer) :
    ∃ hn, Lexical.closing src i stop = .ok ⟨i + 1 + inner.length, hn⟩ := by
  have hlast := h.tail.behind
  have hsize := h.stop_le
  have hmap : (Lexical.closing src i stop).map (·.1) = .ok (i + 1 + inner.length) :=
    calc (Lexical.closing src i stop).map (·.1)
      _ = (closingFrom src k i stop 1 (i + 1)).map (·.1) := closing_eq_closingFrom h.1.head
      _ = (closingFrom src k i stop 1 (i + 1 + inner.length)).map (·.1) :=
        hinner.passed h.1.tail.upTo hlast.lt (Nat.le_refl 1)
      _ = .ok (i + 1 + inner.length) :=
        closingFrom_last hlast.1.head hlast.lt fun hin => by omega
  cases hclose : Lexical.closing src i stop with
  | error e =>
    rw [hclose] at hmap
    cases hmap
  | ok n =>
    rw [hclose] at hmap
    have heq : n.1 = i + 1 + inner.length := Except.ok.inj hmap
    exact ⟨heq ▸ n.2, congrArg Except.ok (Subtype.ext heq)⟩

end Fills

end SyntaxForest.Bytes
