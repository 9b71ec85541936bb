import SyntaxForest.Proofs.Template.Characters
import SyntaxForest.Proofs.Text.Decoding
import SyntaxForest.Proofs.Text.Joining

/-!
# Borders between characters

The scanner steps through a source byte by byte, also through the bytes of one character. Where a
rule ends, though, it ends next to an ASCII byte or at the end of its range, and an ASCII byte is a
character of its own: there the text is not cut (`IsBoundary`). So what is read between two such
places is a part of the text (`textOf_isPart`), and nothing in it is replaced.
-/

namespace SyntaxForest

variable {text : String} {b : UInt8} {i j : Nat}

/-! ## Bytes of a text -/

namespace Bytes

/-- The bytes of some characters. -/
def ofChars (chars : List Char) : List UInt8 := chars.flatMap String.utf8EncodeChar

@[simp] theorem ofChars_append (chars more : List Char) :
    ofChars (chars ++ more) = ofChars chars ++ ofChars more := List.flatMap_append

@[simp] theorem ofChars_cons (c : Char) (chars : List Char) :
    ofChars (c :: chars) = String.utf8EncodeChar c ++ ofChars chars := List.flatMap_cons

theorem ofChars_singleton (c : Char) : ofChars [c] = String.utf8EncodeChar c := List.append_nil _

theorem ofText_eq (text : String) : ofText text = (ofChars text.toList).toArray := by
  rw [ofChars, ← toList_ofText, Array.toArray_toList]

theorem ofText_ofList (chars : List Char) :
    ofText (String.ofList chars) = (ofChars chars).toArray := by
  rw [ofText_eq, String.toList_ofList]

theorem size_ofText (text : String) : (ofText text).size = text.utf8ByteSize :=
  ByteArray.size_data.trans String.size_toByteArray

theorem utf8EncodeChar_of_toNat {c : Char} (h : c.toNat = b.toNat) (hb : b < 0x80) :
    String.utf8EncodeChar c = [b] := by
  have hval : c.val.toNat = b.toNat := h
  have hlt : b.toNat ≤ 0x7F := Nat.le_of_lt_succ (UInt8.lt_iff_toNat_lt.mp hb)
  simp only [String.utf8EncodeChar, hval, if_pos hlt, UInt8.ofNat_toNat]

/-- A blank is a character of one byte. -/
theorem ascii_of_isBlank (h : isBlank b = true) : b < 0x80 := by
  simp only [isBlank, Bool.or_eq_true, beq_iff_eq] at h
  rcases h with ((rfl | rfl) | rfl) | rfl <;> decide

/-- A byte that does not stand in a word is a character of its own. -/
theorem ascii_of_not_inWord (h : ¬ inWord b = true) : b < 0x80 := by
  simp only [inWord, startsWord, Bool.or_eq_true, not_or, decide_eq_true_eq] at h
  exact UInt8.not_le.mp h.1.2

/-- **An ASCII byte is a character of its own.** -/
theorem exists_ascii {chars : List Char} (h : (ofChars chars)[i]? = some b) (hb : b < 0x80) :
    ∃ before c after, chars = before ++ c :: after ∧ i = (ofChars before).length
      ∧ String.utf8EncodeChar c = [b] := by
  induction chars generalizing i with
  | nil => cases h
  | cons c rest ih =>
    rw [ofChars_cons, List.getElem?_append] at h
    split at h
    · next hlt =>
      have hc := Template.Lexical.toNat_of_mem_utf8EncodeChar (List.mem_of_getElem? h) hb
      have hone := utf8EncodeChar_of_toNat hc hb
      obtain rfl : i = 0 := by
        rw [hone, List.length_singleton] at hlt
        omega
      exact ⟨[], c, rest, rfl, rfl, hone⟩
    · next hge =>
      obtain ⟨before, d, after, rfl, hlen, hone⟩ := ih h
      refine ⟨c :: before, d, after, rfl, ?_, hone⟩
      rw [ofChars_cons, List.length_append]
      omega

end Bytes

/-- **A border between two characters** of a text, by its offset in bytes. -/
def IsBoundary (text : String) (i : Nat) : Prop := String.Pos.Raw.IsValid text ⟨i⟩

namespace IsBoundary

/-- A border is what some of the first characters of the text take. -/
theorem iff_take : IsBoundary text i ↔
    ∃ n, i = (Bytes.ofChars (text.toList.take n)).length := by
  have hsize : ∀ n, (String.ofList (text.toList.take n)).utf8ByteSize
      = (Bytes.ofChars (text.toList.take n)).length := fun n => by
    rw [← Bytes.size_ofText, Bytes.ofText_ofList, List.size_toArray]
  rw [IsBoundary, String.Pos.Raw.isValid_iff_exists_take_toList]
  exact exists_congr fun n => by rw [hsize]

/-- Where a text falls apart into two there is a boundary. -/
theorem of_append {before after : List Char} (h : text.toList = before ++ after) :
    IsBoundary text (Bytes.ofChars before).length :=
  iff_take.mpr ⟨before.length, by rw [h, List.take_left]⟩

/-- A text ends at a border. -/
theorem size : IsBoundary text (Bytes.ofText text).size := by
  rw [Bytes.ofText_eq, List.size_toArray]
  exact of_append (List.append_nil _).symm

/-- **There is a border in front of an ASCII byte**, -/
theorem at_ascii (h : (Bytes.ofText text)[i]? = some b) (hb : b < 0x80) : IsBoundary text i := by
  rw [Bytes.ofText_eq, List.getElem?_toArray] at h
  obtain ⟨before, c, after, hsplit, rfl, -⟩ := Bytes.exists_ascii h hb
  exact of_append hsplit

/-- **and behind it.** -/
theorem succ_ascii (h : (Bytes.ofText text)[i]? = some b) (hb : b < 0x80) :
    IsBoundary text (i + 1) := by
  rw [Bytes.ofText_eq, List.getElem?_toArray] at h
  obtain ⟨before, c, after, hsplit, rfl, hone⟩ := Bytes.exists_ascii h hb
  have hlen : (Bytes.ofChars before).length + 1 = (Bytes.ofChars (before ++ [c])).length := by
    simp [Bytes.ofChars, hone]
  rw [hlen]
  have hafter : text.toList = before ++ [c] ++ after := by
    rw [hsplit, List.append_assoc, List.singleton_append]
  exact of_append hafter

/-- **Between two borders stand whole characters.** -/
theorem exists_between (hi : IsBoundary text i) (hj : IsBoundary text j) (hle : i ≤ j) :
    ∃ before inner after, text.toList = before ++ (inner ++ after)
      ∧ i = (Bytes.ofChars before).length ∧ j = i + (Bytes.ofChars inner).length := by
  obtain ⟨n, rfl⟩ := iff_take.mp hi
  obtain ⟨m, rfl⟩ := iff_take.mp hj
  rcases Nat.le_total n m with hnm | hmn
  · obtain ⟨k, rfl⟩ := Nat.exists_eq_add_of_le hnm
    refine ⟨text.toList.take n, (text.toList.drop n).take k, (text.toList.drop n).drop k, ?_, rfl,
      ?_⟩
    · rw [List.take_append_drop, List.take_append_drop]
    · rw [List.take_add, Bytes.ofChars_append, List.length_append]
  · obtain ⟨k, rfl⟩ := Nat.exists_eq_add_of_le hmn
    refine ⟨text.toList.take (m + k), [], text.toList.drop (m + k), ?_, rfl, ?_⟩
    · rw [List.nil_append, List.take_append_drop]
    · rw [List.take_add, Bytes.ofChars_append, List.length_append] at hle ⊢
      exact Nat.le_antisymm (Nat.le_add_right _ _) hle

/-- **No border is inside a character.** -/
theorem le_or_le {before after : List Char} {c : Char} (h : IsBoundary text i)
    (hsplit : text.toList = before ++ c :: after) : i ≤ (Bytes.ofChars before).length
      ∨ (Bytes.ofChars before).length + (String.utf8EncodeChar c).length ≤ i := by
  obtain ⟨n, rfl⟩ := iff_take.mp h
  rw [hsplit]
  rcases Nat.lt_or_ge before.length n with hlt | hle
  · right
    obtain ⟨k, rfl⟩ := Nat.exists_eq_add_of_lt hlt
    rw [Nat.add_assoc, List.take_length_add_append, List.take_succ_cons, Bytes.ofChars_append,
      Bytes.ofChars_cons, List.length_append, List.length_append, ← Nat.add_assoc]
    exact Nat.le_add_right _ _
  · left
    rw [List.take_append_of_le_length hle]
    conv_rhs => rw [← List.take_append_drop n before, Bytes.ofChars_append, List.length_append]
    exact Nat.le_add_right _ _

end IsBoundary

/-! ## Parts of a text -/

/-- **A part of a text.** -/
def IsPart (text value : String) : Prop := value.toList <:+: text.toList

/-- **What is read between two borders is a part of the text.** -/
theorem textOf_isPart (hi : IsBoundary text i) (hj : IsBoundary text j) :
    IsPart text (Template.Lexical.textOf (Bytes.ofText text) i j) := by
  unfold IsPart
  rcases Nat.le_total i j with hle | hge
  · obtain ⟨before, inner, after, hsplit, rfl, rfl⟩ := hi.exists_between hj hle
    have hslice : (Bytes.ofText text).slice (Bytes.ofChars before).length
        ((Bytes.ofChars before).length + (Bytes.ofChars inner).length)
          = Bytes.ofText (String.ofList inner) := by
      rw [Bytes.ofText_ofList, Bytes.ofText_eq, hsplit, Bytes.ofChars_append, Bytes.ofChars_append,
        Bytes.slice]
      simp
    rw [Template.Lexical.textOf, hslice, Text.Utf8.decodeLenient_ofText, String.toList_ofList,
      hsplit]
    exact List.infix_append' before inner after
  · have hslice : (Bytes.ofText text).slice i j = #[] :=
      Array.extract_eq_empty_of_le (Nat.le_trans (Nat.min_le_left _ _) hge)
    rw [Template.Lexical.textOf, hslice, Text.Utf8.decodeLenient_empty]
    exact List.nil_infix

/-- A trimmed text is part of the text. -/
theorem Text.trim_isPart (s : String) : IsPart s (Text.trim s) := by
  rw [IsPart, Text.toList_trim]
  exact (List.rdropWhile_prefix _ _).isInfix.trans (List.dropWhile_suffix _).isInfix

/-! ## Rules -/

namespace Template.Lexical

open Bytes (ascii_of_isBlank ascii_of_not_inWord)

variable {stop : Nat}

theorem Bracket.closer_ascii (k : Bracket) : k.closer < 0x80 := by
  cases k <;> decide

/-- **What is found** that is spelled in ASCII begins and ends at borders. -/
theorem find_boundary {needle : List UInt8} (hne : needle ≠ []) (hneedle : ∀ b ∈ needle, b < 0x80)
    (h : (Bytes.ofText text).find needle i stop = some j) :
    IsBoundary text j ∧ IsBoundary text (j + needle.length) := by
  have hat : (Bytes.ofText text).Spells needle j := (Bytes.find_eq_some_iff.mp h).1.2.2
  have hlen := List.length_pos_of_ne_nil hne
  have hlast : j + needle.length = j + (needle.length - 1) + 1 := by omega
  have hbyte : ∀ n, n < needle.length → ∃ b, (Bytes.ofText text)[j + n]? = some b ∧ b < 0x80 :=
    fun n hn => ⟨_, (hat.getElem? hn).trans (List.getElem?_eq_getElem hn),
      hneedle _ (List.getElem_mem hn)⟩
  obtain ⟨first, hfirst, hb⟩ := hbyte 0 hlen
  obtain ⟨last, hend, hc⟩ := hbyte (needle.length - 1) (Nat.sub_lt hlen Nat.one_pos)
  exact ⟨.at_ascii hfirst hb, hlast ▸ .succ_ascii hend hc⟩

/-- **The search for a sign** of one byte a character ends between characters. -/
theorem upTo_boundary {needle : List UInt8} {low : Nat} {hi : low ≤ i} {hl : low ≤ stop}
    (hne : needle ≠ []) (hneedle : ∀ b ∈ needle, b < 0x80) (hs : IsBoundary text stop) :
    IsBoundary text (upTo (Bytes.ofText text) needle i stop hi hl).1 := by
  unfold upTo
  split
  · next found hfound => exact (find_boundary hne hneedle hfound).1
  · exact hs

/-- Blanks are passed from border to border. -/
theorem skipBlanks_boundary (hi : IsBoundary text i) :
    Answers (skipBlanks (Bytes.ofText text) i stop) (IsBoundary text ·.1) := by
  unfold skipBlanks
  induction hn : stop - i generalizing i with
  | zero =>
    rw [skipWhile, if_neg (by omega)]
    exact .ok hi
  | succ n ih =>
    rw [skipWhile, if_pos (by omega)]
    refine .bind byteAt_eq fun b hb => ?_
    split
    · next hblank =>
      refine .bind (ih (.succ_ascii hb (ascii_of_isBlank hblank)) (by omega)) ?_
      rintro ⟨m, hm⟩ hend
      exact .pure hend
    · exact .pure hi

/-- **A word ends at a border**, if its range does: it goes on over all that is not ASCII. -/
theorem identifierEnd_boundary (hi : IsBoundary text i) (hs : IsBoundary text stop) :
    Answers (identifierEnd (Bytes.ofText text) i stop) (IsBoundary text ·.1) := by
  -- an offset inside a character is passed, so only the end counts
  have hend : ∀ {i}, i < stop →
      Answers (identifierEnd (Bytes.ofText text) i stop) (IsBoundary text ·.1) := by
    intro i hlt
    unfold identifierEnd
    induction hn : stop - i generalizing i with
    | zero => omega
    | succ n ih =>
      rw [skipWhile, if_pos hlt]
      refine .bind byteAt_eq fun b hb => ?_
      split
      · refine .bind (p := (IsBoundary text ·.1)) ?_ ?_
        · by_cases hlast : i + 1 < stop
          · exact ih hlast (by omega)
          · rw [skipWhile, if_neg hlast]
            exact .ok (show IsBoundary text (i + 1) from (by omega : stop = i + 1) ▸ hs)
        · rintro ⟨m, hm⟩ hend
          exact .pure hend
      · next hword => exact .pure (.at_ascii hb (ascii_of_not_inWord hword))
  by_cases hlt : i < stop
  · exact hend hlt
  · unfold identifierEnd
    rw [skipWhile, if_neg hlt]
    exact .ok hi

/-- A word is a part of the text, and ends at a border. -/
theorem wordAt_boundary (hi : IsBoundary text i) (hs : IsBoundary text stop) :
    Answers (wordAt (Bytes.ofText text) i stop)
      fun r => IsPart text r.1 ∧ IsBoundary text r.2.1 := by
  refine .bind .any fun starts _ => ?_
  split
  · refine .bind (identifierEnd_boundary hi hs) ?_
    rintro ⟨n, hn⟩ hend
    exact .pure ⟨textOf_isPart hi hend, hend⟩
  · exact .pure ⟨List.nil_infix, hi⟩

/-- **A bracket is closed by an ASCII byte.** -/
theorem closing_boundary : Answers (closing (Bytes.ofText text) i stop)
    fun n => IsBoundary text n.1 ∧ IsBoundary text (n.1 + 1) := by
  refine .bind .any fun b _ => ?_
  split
  · next k _ =>
    refine .bind closingFrom_closer ?_
    rintro ⟨n, hn⟩ hcloser
    exact .pure ⟨.at_ascii hcloser k.closer_ascii, .succ_ascii hcloser k.closer_ascii⟩
  · exact .throw

/-- **A tag ends behind its bracket**, or with the range. -/
theorem tagEndFrom_boundary (hs : IsBoundary text stop) :
    Answers (tagEndFrom (Bytes.ofText text) i stop) (IsBoundary text ·.1) := by
  induction hn : stop - i using Nat.strongRecOn generalizing i with
  | ind n ih =>
    rw [tagEndFrom]
    split
    · refine .bind byteAt_eq fun b hb => ?_
      split
      · split
        · next close hclose =>
          have hbounds := Bytes.find_bounds hclose
          refine .bind (ih _ (by omega) rfl) ?_
          rintro ⟨m, hm⟩ hend
          exact .pure hend
        · exact .pure hs
      · split
        · next hend =>
          obtain rfl := beq_iff_eq.mp hend
          exact .pure (.succ_ascii hb (by decide))
        · refine .bind (ih _ (by omega) rfl) ?_
          rintro ⟨m, hm⟩ hend
          exact .pure hend
    · exact .ok hs

/-- **An element ends between characters.** -/
theorem elementEndFrom_boundary {name : Bytes} {depth : Nat} (hs : IsBoundary text stop) :
    Answers (elementEndFrom (Bytes.ofText text) name stop depth i) (IsBoundary text ·.1) := by
  induction hn : stop - i using Nat.strongRecOn generalizing depth i with
  | ind n ih =>
    rw [elementEndFrom]
    split
    · split
      · exact .ok hs
      · next lt hlt =>
        have hbounds := Bytes.find_bounds hlt
        have hlen : lt + 1 ≤ stop := hbounds.2.1
        refine .bind .any fun isEnd _ => ?_
        refine .bind .any fun named _ => ?_
        split
        · refine .bind (tagEndFrom_boundary hs) ?_
          rintro ⟨next, hnext⟩ htag
          dsimp only
          split
          · split
            · exact .pure htag
            · refine .bind (ih _ (by omega) rfl) ?_
              rintro ⟨m, hm⟩ hend
              exact .pure hend
          · refine .bind .any fun b _ => ?_
            refine .bind (ih _ (by omega) rfl) ?_
            rintro ⟨m, hm⟩ hend
            exact .pure hend
        · refine .bind (ih _ (by omega) rfl) ?_
          rintro ⟨m, hm⟩ hend
          exact .pure hend
    · exact .ok hs

/-- **An element ends behind a tag**, or with the range. -/
theorem elementEnd_boundary (hs : IsBoundary text stop) :
    Answers (elementEnd (Bytes.ofText text) i stop) (IsBoundary text ·.1) := by
  refine .bind (tagEndFrom_boundary hs) ?_
  rintro ⟨tagStop, h⟩ htag
  refine .bind .any fun first _ => ?_
  dsimp only
  split
  · exact .pure htag
  · refine .bind .any fun last _ => ?_
    split
    · exact .pure htag
    · refine .bind .any fun nameStop _ => ?_
      refine .bind .any fun slash _ => ?_
      split
      · exact .pure htag
      · refine .bind (elementEndFrom_boundary hs) ?_
        rintro ⟨m, hm⟩ hend
        exact .pure hend

end Template.Lexical

end SyntaxForest
