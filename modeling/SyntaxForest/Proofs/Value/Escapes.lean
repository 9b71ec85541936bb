import SyntaxForest.Value.Json

/-!
# Texts in JSON, read back

A reader for one character of a JSON text (`readChar`) gives back the character that was written,
and what follows it, whatever that is (`readChar_jsonChar`). A quote ends the text. So a written
text determines the text and where it ends, and no text that follows can be taken for a part of
it (`jsonText_append_inj`).
-/

namespace SyntaxForest.Value

/-! ## Hexadecimal digits -/

/-- The value of a small hexadecimal digit. -/
def hexValue (c : Char) : Nat :=
  if c.toNat < 'a'.toNat then c.toNat - '0'.toNat else c.toNat - 'a'.toNat + 10

/-- The number that digits stand for. -/
def ofHex (cs : List Char) : Nat := cs.foldl (fun n c => 16 * n + hexValue c) 0

theorem hexValue_digitChar : ∀ d < 16, hexValue d.digitChar = d := by decide

theorem ofHex_append_digit (cs : List Char) (c : Char) :
    ofHex (cs ++ [c]) = 16 * ofHex cs + hexValue c := by
  rw [ofHex, List.foldl_append]
  rfl

theorem ofHex_toDigits (n : Nat) : ofHex (Nat.toDigits 16 n) = n := by
  induction n using Nat.strongRecOn with
  | ind n ih =>
    rw [Nat.toDigits_eq_if (by decide)]
    split
    · next h => exact (Nat.zero_add _).trans (hexValue_digitChar n h)
    · next h =>
      rw [ofHex_append_digit, ih (n / 16) (Nat.div_lt_self (by omega) (by decide)),
        hexValue_digitChar _ (Nat.mod_lt n (by decide))]
      exact Nat.div_add_mod n 16

theorem ofHex_zeros_append (k : Nat) (cs : List Char) :
    ofHex (List.replicate k '0' ++ cs) = ofHex cs := by
  induction k with
  | zero => rfl
  | succ k ih => exact ih

/-- A padded number is read back. -/
theorem ofHex_hexPadded (width n : Nat) : ofHex (Text.hexPadded width n).toList = n := by
  rw [Text.hexPadded, String.toList_ofList, ofHex_zeros_append, ofHex_toDigits]

theorem length_hexPadded {n : Nat} (h : n < 0x10000) :
    (Text.hexPadded 4 n).toList.length = 4 := by
  have hlen : (Nat.toDigits 16 n).length ≤ 4 :=
    (Nat.length_toDigits_le_iff (by decide) (by decide)).mpr h
  rw [Text.hexPadded, String.toList_ofList, List.length_append, List.length_replicate]
  exact Nat.sub_add_cancel hlen

/-! ## Characters -/

/-- The unit that the next four digits stand for, and what follows them. -/
def readUnit (cs : List Char) : Nat × List Char := (ofHex (cs.take 4), cs.drop 4)

/-- The character behind `\u`: one unit, or two if the first is the upper half of a pair. -/
def readUnits (cs : List Char) : Char × List Char :=
  let high := readUnit cs
  if 0xD800 ≤ high.1 ∧ high.1 < 0xDC00 then
    let low := readUnit (high.2.drop 2)
    (Char.ofNat (0x10000 + (high.1 - 0xD800) * 0x400 + (low.1 - 0xDC00)), low.2)
  else (Char.ofNat high.1, high.2)

/-- The character that a letter behind a backslash stands for. -/
def escaped (c : Char) : Char :=
  if c = 'n' then '\n'
  else if c = 'r' then '\r'
  else if c = 't' then '\t'
  else if c = 'f' then '\x0C'
  else if c = 'b' then '\x08'
  else c

/-- **The next character of a text between quotes**, and what follows it; none where the text
ends. -/
def readChar : List Char → Option (Char × List Char)
  | [] => none
  | c :: rest =>
    if c = '"' then none
    else if c = '\\' then
      match rest with
      | [] => none
      | 'u' :: rest => some (readUnits rest)
      | c :: rest => some (escaped c, rest)
    else some (c, rest)

theorem readUnit_hexPadded {n : Nat} (h : n < 0x10000) (rest : List Char) :
    readUnit ((Text.hexPadded 4 n).toList ++ rest) = (n, rest) := by
  have hlen := length_hexPadded h
  rw [readUnit, List.take_left' hlen, List.drop_left' hlen, ofHex_hexPadded]

/-- **The code of a character** is not half of a pair, and there are at most seventeen planes. -/
theorem code_bounds (c : Char) :
    c.toNat < 0xD800 ∨ 0xDFFF < c.toNat ∧ c.toNat < 0x110000 := c.valid

theorem readUnits_hexPadded {c : Char} (h : c.toNat < 0x10000) (rest : List Char) :
    readUnits ((Text.hexPadded 4 c.toNat).toList ++ rest) = (c, rest) := by
  have hsingle : ¬(0xD800 ≤ c.toNat ∧ c.toNat < 0xDC00) := by
    have := code_bounds c
    omega
  rw [readUnits, readUnit_hexPadded h]
  exact (if_neg hsingle).trans (congrArg (·, rest) (Char.ofNat_toNat c))

theorem toList_unitEscape (n : Nat) :
    (unitEscape n).toList = '\\' :: 'u' :: (Text.hexPadded 4 n).toList := by
  rw [unitEscape, String.toList_append]
  rfl

/-- **A pair of units** is read back as one character. -/
theorem readUnits_pair {c : Char} (h : ¬c.toNat < 0x10000) (rest : List Char) :
    readUnits ((Text.hexPadded 4 (0xD800 + (c.toNat - 0x10000) / 0x400)).toList
      ++ ((unitEscape (0xDC00 + (c.toNat - 0x10000) % 0x400)).toList ++ rest)) = (c, rest) := by
  have hbounds := code_bounds c
  have hhigh : 0xD800 + (c.toNat - 0x10000) / 0x400 < 0xDC00 := by omega
  have hlow : 0xDC00 + (c.toNat - 0x10000) % 0x400 < 0x10000 := by omega
  have hcode : 0x10000 + (0xD800 + (c.toNat - 0x10000) / 0x400 - 0xD800) * 0x400
      + (0xDC00 + (c.toNat - 0x10000) % 0x400 - 0xDC00) = c.toNat := by
    omega
  rw [readUnits, readUnit_hexPadded (Nat.lt_trans hhigh (by decide)), toList_unitEscape,
    List.cons_append, List.cons_append, List.drop_succ_cons, List.drop_succ_cons, List.drop_zero,
    readUnit_hexPadded hlow]
  refine (if_pos ⟨Nat.le_add_right _ _, hhigh⟩).trans ?_
  exact congrArg (·, rest) ((congrArg Char.ofNat hcode).trans (Char.ofNat_toNat c))

theorem readChar_unitEscape (n : Nat) (rest : List Char) :
    readChar ((unitEscape n).toList ++ rest)
      = some (readUnits ((Text.hexPadded 4 n).toList ++ rest)) := by
  rw [toList_unitEscape]
  rfl

/-- **A character that was written is read back**, whatever follows it. -/
theorem readChar_jsonChar (c : Char) (rest : List Char) :
    readChar ((jsonChar c).toList ++ rest) = some (c, rest) := by
  rw [jsonChar]
  -- seven characters have an escape of their own
  iterate 7
    split
    · next h => subst h; rfl
  split
  · next hquote hslash _ _ _ _ _ _ =>
    rw [Char.toString, String.toList_singleton]
    exact (if_neg hquote).trans (if_neg hslash)
  split
  · next h =>
    rw [readChar_unitEscape, readUnits_hexPadded h]
  · next h =>
    rw [String.toList_append, List.append_assoc, readChar_unitEscape, readUnits_pair h]

/-! ## Texts -/

/-- **Written characters determine the text**, up to the quote behind them. -/
theorem jsonChars_append_inj {s t r r' : List Char}
    (h : s.flatMap (fun c => (jsonChar c).toList) ++ '"' :: r
      = t.flatMap (fun c => (jsonChar c).toList) ++ '"' :: r') : s = t ∧ r = r' := by
  have hend : ∀ rest, readChar ('"' :: rest) = none := fun rest => rfl
  induction s generalizing t with
  | nil =>
    cases t with
    | nil => exact ⟨rfl, (List.cons.inj h).2⟩
    | cons d t =>
      have hread := congrArg readChar h
      rw [List.flatMap_cons, List.append_assoc, readChar_jsonChar] at hread
      exact absurd ((hend r).symm.trans hread).symm (Option.some_ne_none _)
  | cons c s ih =>
    have hread := congrArg readChar h
    rw [List.flatMap_cons, List.append_assoc, readChar_jsonChar] at hread
    cases t with
    | nil => exact absurd (hread.trans (hend r')) (Option.some_ne_none _)
    | cons d t =>
      rw [List.flatMap_cons, List.append_assoc, readChar_jsonChar] at hread
      obtain ⟨rfl, hrest⟩ := Prod.mk.inj (Option.some.inj hread)
      obtain ⟨rfl, hr⟩ := ih hrest
      exact ⟨rfl, hr⟩

theorem toList_jsonText (s : String) : (jsonText s).toList
    = '"' :: (s.toList.flatMap (fun c => (jsonChar c).toList) ++ ['"']) := by
  rw [jsonText, String.toList_append, String.toList_append, String.toList_join, List.flatMap_map]
  rfl

/-- **A text as JSON determines the text**, and what follows it. -/
theorem jsonText_append_inj {s t : String} {r r' : List Char}
    (h : (jsonText s).toList ++ r = (jsonText t).toList ++ r') : s = t ∧ r = r' := by
  rw [toList_jsonText, toList_jsonText, List.cons_append, List.cons_append, List.append_assoc,
    List.append_assoc] at h
  obtain ⟨hst, hr⟩ := jsonChars_append_inj (List.cons.inj h).2
  exact ⟨String.toList_inj.mp hst, hr⟩

end SyntaxForest.Value
