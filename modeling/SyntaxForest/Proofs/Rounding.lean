import Mathlib.Tactic.NormNum
import SyntaxForest.Analysis.Failure

/-!
# Quotients that are not above one

The share of errors is a quotient that is rounded once, and a tolerance is compared with what it
is rounded to. Rounding does not carry a quotient of one at most beyond one
(`Binary64.ofRatio_place`), so a tolerance of one allows each of them (`Tolerance.allows_ofRatio`).

The bits of a double that is not negative grow with it, and those of one are `1023 * 2 ^ 52`. So
it is enough to bound the bits that `ofRatio` puts together: the mantissa by what the exponent
leaves of them.
-/

namespace SyntaxForest

namespace Number

namespace Place

/-- One, in units. -/
def one : Nat := Nat.pow 2 1074

theorem ofInt_eq (i : Int) : ofInt i = .at (i * one) := by
  unfold ofInt one
  generalize Nat.pow 2 1074 = n
  rfl

theorem pow_le_one {e : Nat} (h : e ≤ 1074) : 2 ^ e ≤ one := by
  unfold one
  generalize 1074 = n at h ⊢
  exact Nat.pow_le_pow_right (by decide) h

/-- Integers are at different places. -/
theorem same_ofInt_iff {a b : Int} : (ofInt a).same (ofInt b) = true ↔ a = b := by
  have hpos : 0 < one := pow_le_one (Nat.zero_le 1074)
  have hone : (one : Int) ≠ 0 := Int.natCast_ne_zero.mpr (Nat.ne_of_gt hpos)
  rw [ofInt_eq, ofInt_eq, same, beq_iff_eq]
  exact Int.mul_eq_mul_right_iff hone

end Place

namespace Binary64

variable {num den k : Nat}

/-- The magnitude bits of one. -/
abbrev oneBits : Nat := 1023 * fractionSize

theorem roundQuotient_le (hden : 0 < den) (h : num ≤ k * den) : roundQuotient num den ≤ k := by
  have hquotient : num / den ≤ k := Nat.div_le_of_le_mul (Nat.mul_comm k den ▸ h)
  have hrest := Nat.div_add_mod num den
  -- a quotient that is not exact is below the bound
  have hnext : 0 < num % den → num / den + 1 ≤ k := by
    intro hpos
    by_contra hnot
    have heq : num / den = k := by omega
    rw [heq, Nat.mul_comm] at hrest
    omega
  unfold roundQuotient
  dsimp only
  split
  · exact hquotient
  · split
    · exact hnext (by omega)
    · have := hnext (by omega)
      omega

/-- Two numbers with their binary lengths: the first is below a power of two times the second. -/
theorem mul_pow_lt_of_log2 {a b : Nat} (hden : 0 < den) (h : num.log2 + 1 + a ≤ den.log2 + b) :
    num * 2 ^ a < 2 ^ b * den := by
  calc num * 2 ^ a < 2 ^ (num.log2 + 1) * 2 ^ a :=
        Nat.mul_lt_mul_of_pos_right Nat.lt_log2_self (Nat.two_pow_pos a)
    _ = 2 ^ (num.log2 + 1 + a) := (Nat.pow_add ..).symm
    _ ≤ 2 ^ (b + den.log2) := Nat.pow_le_pow_right (by decide) (by omega)
    _ = 2 ^ b * 2 ^ den.log2 := Nat.pow_add ..
    _ ≤ 2 ^ b * den := Nat.mul_le_mul_left _ (Nat.log2_self_le hden.ne')

theorem log2_le_log2 (h : num ≤ den) : num.log2 ≤ den.log2 := by
  by_cases hnum : num = 0
  · rw [hnum, Nat.log2_zero]
    exact Nat.zero_le _
  · have hself := Nat.log2_self_le hnum
    exact (Nat.le_log2 (by omega)).mpr (Nat.le_trans hself h)

/-- The mantissa of a quotient leaves the bits below those of one. -/
theorem mantissa_le {exponent : Nat} (hden : 0 < den) (h : num ≤ den) (hexp : exponent ≤ 1022)
    (hsize : num * 2 ^ (1074 - exponent) < 2 ^ 53 * den) :
    roundQuotient (num * 2 ^ (1074 - exponent)) den + exponent * fractionSize ≤ oneBits := by
  show _ + exponent * 2 ^ 52 ≤ 1023 * 2 ^ 52
  by_cases htop : exponent = 1022
  -- with the greatest exponent, only one itself has all of its mantissa
  · rw [htop] at hsize ⊢
    have hquotient : num * 2 ^ (1074 - 1022) ≤ 2 ^ 52 * den := by omega
    have := roundQuotient_le hden hquotient
    omega
  · have := roundQuotient_le hden hsize.le
    omega

/-- **The bits of a quotient** that is one at most are those of one at most. -/
theorem exists_bits_of_le (hden : 0 < den) (h : num ≤ den) :
    ∃ bits ≤ oneBits, ofRatio false num den = ofMagnitude false bits := by
  by_cases hnum : num = 0
  · exact ⟨0, Nat.zero_le _, by rw [ofRatio, if_pos hnum]⟩
  · have hlog := log2_le_log2 h
    generalize hx : ofRatio false num den = x
    rw [ofRatio, if_neg hnum] at hx
    extract_lets top scaled coarse fine exponent mantissa at hx
    have hcoarse : coarse ≤ 1022 := by omega
    have hfine : fine ≤ 1022 := by omega
    have hscaled : ∀ e ≤ 1022, scaled e = (num * 2 ^ (1074 - e), den) :=
      fun e he => if_neg (by omega)
    have hsize : exponent ≤ 1022 ∧ num * 2 ^ (1074 - exponent) < 2 ^ 53 * den := by
      by_cases hlt : (scaled fine).1 < Nat.pow 2 53 * (scaled fine).2
      · rw [show exponent = fine from if_pos hlt]
        rw [hscaled fine hfine] at hlt
        exact ⟨hfine, hlt⟩
      · rw [show exponent = coarse from if_neg hlt]
        exact ⟨hcoarse, mul_pow_lt_of_log2 hden (by omega)⟩
    refine ⟨_, Nat.le_trans (Nat.min_le_left _ _) ?_, hx.symm⟩
    show roundQuotient (scaled exponent).1 (scaled exponent).2 + exponent * fractionSize ≤ oneBits
    rw [hscaled exponent hsize.1]
    exact mantissa_le hden h hsize.1 hsize.2

/-- What the bits of one at most are read as. -/
theorem read_ofMagnitude {bits : Nat} (h : bits ≤ oneBits) :
    (ofMagnitude false bits).read
      = if bits / 2 ^ 52 = 0 then .finite false (bits % 2 ^ 52) 0
        else .finite false (2 ^ 52 + bits % 2 ^ 52) (bits / 2 ^ 52 - 1) := by
  have hbits : bits ≤ 1023 * 2 ^ 52 := h
  have hn : (ofMagnitude false bits).bits.toNat = bits := by
    show (bits + 0) % 2 ^ 64 = bits
    omega
  have hsign : bits / Nat.pow 2 63 % 2 = 0 := by
    show bits / 2 ^ 63 % 2 = 0
    omega
  have hexponent : bits / fractionSize % Nat.pow 2 11 = bits / 2 ^ 52 := by
    show bits / 2 ^ 52 % 2 ^ 11 = _
    omega
  unfold read
  dsimp only
  rw [hn, hsign, hexponent, if_neg (by omega)]
  rfl

/-- **A number whose bits are those of one at most** stands between nothing and one. -/
theorem place_ofMagnitude {bits : Nat} (h : bits ≤ oneBits) :
    ∃ units : Nat, units ≤ Place.one ∧ (ofMagnitude false bits).place = .at units := by
  have hbits : bits ≤ 1023 * 2 ^ 52 := h
  rw [place, read_ofMagnitude h]
  by_cases hzero : bits / 2 ^ 52 = 0
  · rw [if_pos hzero]
    refine ⟨bits % 2 ^ 52 * 2 ^ 0, ?_, rfl⟩
    calc bits % 2 ^ 52 * 2 ^ 0 ≤ 2 ^ 52 := by omega
      _ ≤ Place.one := Place.pow_le_one (by decide)
  · rw [if_neg hzero]
    refine ⟨(2 ^ 52 + bits % 2 ^ 52) * 2 ^ (bits / 2 ^ 52 - 1), ?_, rfl⟩
    by_cases htop : bits / 2 ^ 52 = 1023
    -- only the bits of one have its exponent
    · rw [show 2 ^ 52 + bits % 2 ^ 52 = 2 ^ 52 by omega, ← Nat.pow_add]
      exact Place.pow_le_one (by omega)
    · calc (2 ^ 52 + bits % 2 ^ 52) * 2 ^ (bits / 2 ^ 52 - 1)
          ≤ 2 ^ 53 * 2 ^ (bits / 2 ^ 52 - 1) := Nat.mul_le_mul_right _ (by omega)
        _ = 2 ^ (53 + (bits / 2 ^ 52 - 1)) := (Nat.pow_add ..).symm
        _ ≤ Place.one := Place.pow_le_one (by omega)

/-- **A quotient of one at most is not rounded beyond one.** -/
theorem ofRatio_place (hden : 0 < den) (h : num ≤ den) :
    ∃ units : Nat, units ≤ Place.one ∧ (ofRatio false num den).place = .at units := by
  obtain ⟨bits, hbits, heq⟩ := exists_bits_of_le hden h
  rw [heq]
  exact place_ofMagnitude hbits

end Binary64

end Number

namespace Tolerance

open Number

variable {t : Tolerance} {share : Binary64}

/-- **A tolerance of one allows what stands at one at most.** -/
theorem allows_of_place (ht : t.place = .ofInt 1) {units : Nat} (hunits : units ≤ Place.one)
    (hshare : share.place = .at units) : t.allows share = true := by
  have hpos : 0 < Place.one := Place.pow_le_one (e := 0) (by decide)
  rw [allows, ht, hshare, Place.ofInt_eq, Place.ofInt_eq, Int.one_mul, Int.zero_mul]
  generalize Place.one = one at *
  rw [Bool.not_eq_true', Bool.or_eq_false_iff]
  constructor
  · rw [Place.lt, Bool.and_eq_false_iff]
    show decide ((one : Int) ≤ units) = false ∨ (!((one : Int) == units)) = false
    rcases Nat.lt_or_eq_of_le hunits with hlt | rfl
    · exact .inl (decide_eq_false (by omega))
    · right
      rw [beq_self_eq_true]
      rfl
  · exact beq_eq_false_iff_ne.mpr (by omega)

/-- **A tolerance of one allows every share.** -/
theorem allows_ofRatio (ht : t.place = .ofInt 1) {num den : Nat} (hden : 0 < den)
    (h : num ≤ den) : t.allows (Binary64.ofRatio false num den) = true := by
  obtain ⟨units, hunits, hplace⟩ := Binary64.ofRatio_place hden h
  exact allows_of_place ht hunits hplace

end Tolerance

end SyntaxForest
