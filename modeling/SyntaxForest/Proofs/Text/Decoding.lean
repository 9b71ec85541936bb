import SyntaxForest.Text.Utf8

/-!
# Reading what was written

A text is read back from its UTF-8 bytes as it is (`decodeLenient_ofText`): each character's
bytes are one step of the reading (`step_utf8EncodeChar`), and where a character ends the next
one begins. So nothing is replaced in a range that cuts no character, and a strict reading finds
no fault (`decodeFile_ofText`).
-/

namespace SyntaxForest

namespace Text.Utf8

variable {lead b c d : UInt8} {rest : List UInt8}

/-! ## Steps -/

theorem isContinuation_iff : isContinuation b = true ↔ 0x80 ≤ b.toNat ∧ b.toNat < 0xC0 := by
  simp [isContinuation, UInt8.le_iff_toNat_le, UInt8.lt_iff_toNat_lt]

/-- **What may follow a lead byte**, in numbers. -/
theorem allowsSecond_iff : allowsSecond lead b = true ↔
    (0x80 ≤ b.toNat ∧ b.toNat < 0xC0) ∧ (lead.toNat = 0xE0 → 0xA0 ≤ b.toNat)
      ∧ (lead.toNat = 0xED → b.toNat < 0xA0) ∧ (lead.toNat = 0xF0 → 0x90 ≤ b.toNat)
      ∧ (lead.toNat = 0xF4 → b.toNat < 0x90) := by
  simp [allowsSecond, isContinuation, UInt8.le_iff_toNat_le, UInt8.lt_iff_toNat_lt,
    ← UInt8.toNat_inj]
  omega

theorem not_lt_of_toNat_le (h : b.toNat ≤ lead.toNat) : ¬ lead < b :=
  fun hlt => Nat.not_lt.mpr h (UInt8.lt_iff_toNat_lt.mp hlt)

theorem step_one (h : lead.toNat < 0x80) :
    step lead rest = .char (Char.ofNat lead.toNat) 1 := by
  unfold step
  exact if_pos (UInt8.lt_iff_toNat_lt.mpr h)

theorem step_two (hlow : 0xC2 ≤ lead.toNat) (hhigh : lead.toNat < 0xE0)
    (hb : 0x80 ≤ b.toNat ∧ b.toNat < 0xC0) :
    step lead (b :: rest) = .char (Char.ofNat (lead.toNat % 0x20 * 0x40 + payload b)) 2 := by
  have hascii : ¬ lead < 0x80 := not_lt_of_toNat_le (Nat.le_trans (by decide) hlow)
  have hstray : ¬ lead < 0xC2 := not_lt_of_toNat_le hlow
  have htwo : lead < 0xE0 := UInt8.lt_iff_toNat_lt.mpr hhigh
  unfold step
  rw [if_neg hascii, if_neg hstray, if_pos htwo]
  exact if_pos (isContinuation_iff.mpr hb)

theorem step_three (hlow : 0xE0 ≤ lead.toNat) (hhigh : lead.toNat < 0xF0)
    (hb : allowsSecond lead b = true) (hc : 0x80 ≤ c.toNat ∧ c.toNat < 0xC0) :
    step lead (b :: c :: rest)
      = .char (Char.ofNat ((lead.toNat % 0x10 * 0x40 + payload b) * 0x40 + payload c)) 3 := by
  have hascii : ¬ lead < 0x80 := not_lt_of_toNat_le (Nat.le_trans (by decide) hlow)
  have hstray : ¬ lead < 0xC2 := not_lt_of_toNat_le (Nat.le_trans (by decide) hlow)
  have htwo : ¬ lead < 0xE0 := not_lt_of_toNat_le hlow
  have hthree : lead < 0xF0 := UInt8.lt_iff_toNat_lt.mpr hhigh
  unfold step
  rw [if_neg hascii, if_neg hstray, if_neg htwo, if_pos hthree]
  exact (if_pos hb).trans (if_pos (isContinuation_iff.mpr hc))

theorem step_four (hlow : 0xF0 ≤ lead.toNat) (hhigh : lead.toNat < 0xF5)
    (hb : allowsSecond lead b = true) (hc : 0x80 ≤ c.toNat ∧ c.toNat < 0xC0)
    (hd : 0x80 ≤ d.toNat ∧ d.toNat < 0xC0) :
    step lead (b :: c :: d :: rest)
      = .char (Char.ofNat (((lead.toNat % 0x08 * 0x40 + payload b) * 0x40 + payload c) * 0x40
          + payload d)) 4 := by
  have hascii : ¬ lead < 0x80 := not_lt_of_toNat_le (Nat.le_trans (by decide) hlow)
  have hstray : ¬ lead < 0xC2 := not_lt_of_toNat_le (Nat.le_trans (by decide) hlow)
  have htwo : ¬ lead < 0xE0 := not_lt_of_toNat_le (Nat.le_trans (by decide) hlow)
  have hthree : ¬ lead < 0xF0 := not_lt_of_toNat_le hlow
  have hfour : lead < 0xF5 := UInt8.lt_iff_toNat_lt.mpr hhigh
  unfold step
  rw [if_neg hascii, if_neg hstray, if_neg htwo, if_neg hthree, if_pos hfour]
  exact (if_pos hb).trans ((if_pos (isContinuation_iff.mpr hc)).trans
    (if_pos (isContinuation_iff.mpr hd)))

/-- **The bytes of a character are one step.** -/
theorem step_utf8EncodeChar (ch : Char) : ∃ lead more, String.utf8EncodeChar ch = lead :: more
    ∧ ∀ rest, step lead (more ++ rest) = .char ch (more.length + 1) := by
  have hval : ch.toNat = ch.val.toNat := rfl
  have hvalid : ch.val.toNat < 0xD800 ∨ 0xDFFF < ch.val.toNat ∧ ch.val.toNat < 0x110000 :=
    ch.valid
  have hbyte : ∀ {n : Nat}, n < 256 → (UInt8.ofNat n).toNat = n := fun h =>
    UInt8.toNat_ofNat_of_lt' h
  have hread : ∀ {n : Nat}, n = ch.val.toNat → Char.ofNat n = ch := by
    rintro n rfl
    exact ch.ofNat_toNat
  unfold String.utf8EncodeChar
  generalize hv : ch.val.toNat = v at *
  dsimp only
  split
  · next h =>
    refine ⟨_, _, rfl, fun rest => ?_⟩
    have hlead := hbyte (n := v) (by omega)
    rw [List.nil_append, step_one (by omega), hread hlead]
    rfl
  · split
    · next h =>
      refine ⟨_, _, rfl, fun rest => ?_⟩
      have hlead := hbyte (n := v / 64 % 32 + 192) (by omega)
      have hsecond := hbyte (n := v % 64 + 128) (by omega)
      rw [List.cons_append, step_two (by omega) (by omega) (by omega), hread]
      · rfl
      · rw [payload]
        omega
    · split
      · next h =>
        refine ⟨_, _, rfl, fun rest => ?_⟩
        have hlead := hbyte (n := v / 4096 % 16 + 224) (by omega)
        have hsecond := hbyte (n := v / 64 % 64 + 128) (by omega)
        have hthird := hbyte (n := v % 64 + 128) (by omega)
        rw [List.cons_append, List.cons_append,
          step_three (by omega) (by omega) (allowsSecond_iff.mpr (by omega)) (by omega), hread]
        · rfl
        · rw [payload, payload]
          omega
      · next h =>
        refine ⟨_, _, rfl, fun rest => ?_⟩
        have hlead := hbyte (n := v / 262144 % 8 + 240) (by omega)
        have hsecond := hbyte (n := v / 4096 % 64 + 128) (by omega)
        have hthird := hbyte (n := v / 64 % 64 + 128) (by omega)
        have hfourth := hbyte (n := v % 64 + 128) (by omega)
        rw [List.cons_append, List.cons_append, List.cons_append,
          step_four (by omega) (by omega) (allowsSecond_iff.mpr (by omega)) (by omega)
            (by omega), hread]
        · rfl
        · rw [payload, payload, payload]
          omega

/-! ## Whole texts -/

theorem steps_append_utf8EncodeChar (ch : Char) (rest : List UInt8) :
    ∃ n, steps (String.utf8EncodeChar ch ++ rest) = .char ch n :: steps rest := by
  obtain ⟨lead, more, hbytes, hstep⟩ := step_utf8EncodeChar ch
  refine ⟨more.length + 1, ?_⟩
  rw [hbytes, List.cons_append, steps, hstep]
  show _ :: steps ((more ++ rest).drop more.length) = _
  rw [List.drop_left]

end Text.Utf8

namespace Bytes

theorem toList_ofText (s : String) :
    (ofText s).toList = s.toList.flatMap String.utf8EncodeChar := by
  have h : s.toByteArray = s.toList.utf8Encode := String.utf8Encode_toList.symm
  rw [ofText, String.toUTF8_eq_toByteArray, h, List.utf8Encode]
  simp

end Bytes

namespace Text.Utf8

/-- **A text is read back** from its bytes. -/
theorem decodeLenient_ofText (s : String) : decodeLenient (Bytes.ofText s) = s := by
  refine String.toList_inj.mp ?_
  rw [decodeLenient, String.toList_ofList, Bytes.toList_ofText]
  induction s.toList with
  | nil => simp [steps]
  | cons ch rest ih =>
    obtain ⟨n, hsteps⟩ := steps_append_utf8EncodeChar ch (rest.flatMap String.utf8EncodeChar)
    rw [List.flatMap_cons, hsteps, List.map_cons, ih]

theorem decodeLenient_empty : decodeLenient #[] = "" := decodeLenient_ofText ""

theorem readFrom_steps_ofText (cs : List Char) (position : Nat) (bytes : List UInt8) :
    readFrom position bytes (steps (cs.flatMap String.utf8EncodeChar)) = .ok cs := by
  induction cs generalizing position bytes with
  | nil =>
    rw [List.flatMap_nil, steps]
    rfl
  | cons ch rest ih =>
    obtain ⟨n, hsteps⟩ := steps_append_utf8EncodeChar ch (rest.flatMap String.utf8EncodeChar)
    rw [List.flatMap_cons, hsteps, readFrom, ih]
    rfl

/-- What begins with an ASCII character begins with no mark. -/
theorem hasAt_mark_ofText {c : Char} (h : c.toNat < 0x80) (cs : List Char) :
    (Bytes.ofText (String.ofList (c :: cs))).hasAt byteOrderMark 0 = false := by
  have hfirst : String.utf8EncodeChar c = [c.val.toUInt8] := if_pos (Nat.le_of_lt_succ h)
  have hbyte : (Bytes.ofText (String.ofList (c :: cs)))[0]? = some c.val.toUInt8 := by
    rw [← Array.getElem?_toList, Bytes.toList_ofText, String.toList_ofList, List.flatMap_cons,
      hfirst]
    rfl
  have hne : c.val.toUInt8 ≠ 0xEF := fun heq => by
    have hnat : c.toNat % 256 = 0xEF := congrArg UInt8.toNat heq
    omega
  unfold byteOrderMark Bytes.hasAt
  rw [hbyte, Bool.and_eq_false_iff]
  exact .inl (beq_false_of_ne fun heq => hne (Option.some.inj heq))

/-- **A file is read back** from the bytes of its text. -/
theorem decodeFile_ofText {c : Char} (h : c.toNat < 0x80) (cs : List Char) :
    decodeFile (Bytes.ofText (String.ofList (c :: cs))) = .ok (String.ofList (c :: cs)) := by
  unfold decodeFile decode
  rw [hasAt_mark_ofText h, if_neg Bool.false_ne_true, Bytes.toList_ofText, String.toList_ofList,
    readFrom_steps_ofText]
  rfl

/-- Where there are bytes, something is read. -/
theorem decodeLenient_cons_ne (b : UInt8) (rest : List UInt8) :
    decodeLenient (b :: rest).toArray ≠ "" := by
  intro h
  have hlist := congrArg String.toList h
  rw [decodeLenient, String.toList_ofList, List.toList_toArray, steps] at hlist
  cases hlist

end Text.Utf8

end SyntaxForest
