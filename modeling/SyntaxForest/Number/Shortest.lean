import SyntaxForest.Number.Binary64

/-!
# The shortest decimal of a double

The decimal that stands for a double is the shortest one that is read back as
the same double, and of several the nearest. A decimal is read back as the
double when it lies in the interval of numbers that round to it. On the grid of
the numbers with `n` digits only the two neighbours of the double need to be
tried: if any point of the grid lies in the interval, so does one of them.
-/

namespace SyntaxForest.Number

/-- **A positive decimal** `digits * 10 ^ exponent`. -/
structure Decimal where
  digits : Nat
  exponent : Int
  deriving DecidableEq, Repr

/-- How many digits stand before the decimal point of `num / den`: the least `k`
with `num / den < 10 ^ k`. It is negative or zero for a number below one. -/
def integerDigits (num den : Nat) : Int :=
  if den ≤ num then ((Nat.toDigits 10 (num / den)).length : Int)
  else 1 - ((Nat.toDigits 10 ((den - 1) / num)).length : Int)

/-- The numbers that round to one double, over a common denominator: the double
itself, the two ends, and whether the ends belong to it. -/
structure Interval where
  value : Nat
  low : Nat
  high : Nat
  den : Nat
  closed : Bool

/-- The interval of `mantissa * 2 ^ (exponent - 1074)`. Below a power of two the
doubles stand twice as close, so the lower half gap is half as wide there. -/
def Interval.ofFinite (mantissa exponent : Nat) : Interval :=
  let (num, den) := Binary64.ratio (4 * mantissa) exponent
  let unit := num / (4 * mantissa)
  let unit := if unit = 0 then 1 else unit
  let below := if mantissa = Binary64.fractionSize ∧ 0 < exponent then 1 else 2
  { value := num
    low := num - below * unit
    high := num + 2 * unit
    den := 4 * den
    closed := mantissa % 2 == 0 }

namespace Interval

/-- Whether `digits * 10 ^ exponent` lies in the interval. -/
def has (i : Interval) (d : Decimal) : Bool :=
  let digits := if 0 ≤ d.exponent then d.digits * Nat.pow 10 d.exponent.toNat else d.digits
  let num := digits * i.den
  let scale := if 0 ≤ d.exponent then 1 else Nat.pow 10 (-d.exponent).toNat
  if i.closed then i.low * scale ≤ num && num ≤ i.high * scale
  else i.low * scale < num && num < i.high * scale

/-- The two neighbours of the value on the grid of multiples of `10 ^ exponent`,
the nearer one first. -/
def neighbours (i : Interval) (exponent : Int) : Decimal × Decimal :=
  let num := if 0 ≤ exponent then i.value else i.value * Nat.pow 10 (-exponent).toNat
  let den := if 0 ≤ exponent then i.den * Nat.pow 10 exponent.toNat else i.den
  let floor := num / den
  let rest := num % den
  let below : Decimal := ⟨floor, exponent⟩
  let above : Decimal := ⟨floor + 1, exponent⟩
  if 2 * rest < den ∨ (2 * rest = den ∧ floor % 2 = 0) then (below, above) else (above, below)

/-- The nearest point with `n` digits that lies in the interval, if any does;
`places` is the number of digits before the value's point. -/
def onGrid? (i : Interval) (places : Int) (n : Nat) : Option Decimal :=
  let (near, far) := i.neighbours (places - n)
  if i.has near then some near else if i.has far then some far else none

end Interval

/-- A decimal without trailing zeros among its digits. -/
def Decimal.trim (d : Decimal) : Decimal :=
  if h : d.digits ≠ 0 ∧ d.digits % 10 = 0 then
    Decimal.trim ⟨d.digits / 10, d.exponent + 1⟩
  else d
termination_by d.digits
decreasing_by have := h.1; simp; omega

/-- **The shortest decimal that is read back as** `mantissa * 2 ^ (exponent - 1074)`,
and the nearest of those. Seventeen digits always suffice. -/
def shortest (mantissa exponent : Nat) : Decimal :=
  let i := Interval.ofFinite mantissa exponent
  let places := integerDigits i.value i.den
  let found := (List.range 17).findSome? fun n => i.onGrid? places (n + 1)
  (found.getD (i.neighbours (places - 17)).1).trim

end SyntaxForest.Number
