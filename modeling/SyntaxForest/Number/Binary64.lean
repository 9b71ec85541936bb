/-!
# Binary floating point, exactly

A double is kept as its 64 bits and read as an exact number. Every finite
double is a whole number of *units*, the smallest positive double `2^-1074`;
comparisons with other doubles and with integers of any size are comparisons of
whole numbers, and a quotient is rounded once, to the nearest double with ties
to the even one.
-/

namespace SyntaxForest.Number

/-- **A double**, by its bits: a sign, eleven exponent bits, fifty-two fraction
bits. -/
structure Binary64 where
  bits : UInt64
  deriving DecidableEq, Repr, Inhabited

/-- The number a double stands for. -/
inductive Reading
  | nan
  | infinite (negative : Bool)
  /-- The number `± mantissa * 2 ^ (exponent - 1074)`. -/
  | finite (negative : Bool) (mantissa exponent : Nat)
  deriving DecidableEq, Repr

/-- A number, or an infinity, on the line of units; a nan has no place on it. -/
inductive Place
  | nowhere
  | below
  | at (units : Int)
  | above
  deriving DecidableEq, Repr

namespace Place

/-- Whether two places are one. Nothing is where a nan is, not even a nan. -/
def same : Place → Place → Bool
  | .at x, .at y => x == y
  | .below, .below => true
  | .above, .above => true
  | _, _ => false

/-- Whether the first place is at or before the second. -/
def le : Place → Place → Bool
  | .at x, .at y => x ≤ y
  | .below, .below | .below, .at _ | .below, .above => true
  | .at _, .above | .above, .above => true
  | _, _ => false

/-- Whether the first place is before the second. -/
def lt (a b : Place) : Bool := le a b && !same a b

/-- The place of an integer. -/
def ofInt (i : Int) : Place := .at (i * (Nat.pow 2 1074 : Nat))

end Place

namespace Binary64

/-- The fraction's range. -/
abbrev fractionSize : Nat := Nat.pow 2 52

/-- The number that a double's bits stand for. -/
def read (x : Binary64) : Reading :=
  let n := x.bits.toNat
  let negative := n / Nat.pow 2 63 % 2 == 1
  let exponent := n / fractionSize % Nat.pow 2 11
  let fraction := n % fractionSize
  if exponent = 2047 then
    if fraction = 0 then .infinite negative else .nan
  else if exponent = 0 then .finite negative fraction 0
  else .finite negative (fractionSize + fraction) (exponent - 1)

/-- Where a double stands on the line of units. -/
def place (x : Binary64) : Place :=
  match x.read with
  | .nan => .nowhere
  | .infinite negative => if negative then .below else .above
  | .finite negative mantissa exponent =>
    let size : Int := (mantissa * Nat.pow 2 exponent : Nat)
    .at (if negative then -size else size)

/-- The double with the given sign and the given magnitude bits. -/
def ofMagnitude (negative : Bool) (magnitude : Nat) : Binary64 :=
  ⟨UInt64.ofNat (magnitude + if negative then Nat.pow 2 63 else 0)⟩

/-- The magnitude bits of an infinity. -/
abbrev infinityBits : Nat := 2047 * fractionSize

/-- Infinity, of either sign. -/
def infinity (negative : Bool) : Binary64 := ofMagnitude negative infinityBits

/-- The quiet nan, of either sign. -/
def nan (negative : Bool) : Binary64 := ofMagnitude negative (infinityBits + fractionSize / 2)

/-- The whole number nearest to a quotient, a half going to the even neighbour. -/
def roundQuotient (num den : Nat) : Nat :=
  let quotient := num / den
  let rest := num % den
  if 2 * rest < den then quotient
  else if den < 2 * rest then quotient + 1
  else quotient + quotient % 2

/-- **The double nearest to a quotient** `num / den`, ties going to the even
mantissa. The exponent is the least that keeps the mantissa below `2^53`; a
mantissa that rounds up to `2^53` carries into the exponent by itself, because
exponent and fraction are neighbours in the bits. -/
def ofRatio (negative : Bool) (num den : Nat) : Binary64 :=
  if num = 0 then ofMagnitude negative 0
  else
    -- the quotient is below `2 ^ (top - 1074)`, and at least a quarter of it
    let top : Int := num.log2 - den.log2 + 1 + 1074
    let scaled (exponent : Nat) : Nat × Nat :=
      if 1074 ≤ exponent then (num, den * Nat.pow 2 (exponent - 1074))
      else (num * Nat.pow 2 (1074 - exponent), den)
    let coarse := (top - 53).toNat
    let fine := (top - 54).toNat
    let exponent :=
      if (scaled fine).1 < Nat.pow 2 53 * (scaled fine).2 then fine else coarse
    let mantissa := roundQuotient (scaled exponent).1 (scaled exponent).2
    ofMagnitude negative (min (mantissa + exponent * fractionSize) infinityBits)

/-- The double nearest to an integer. -/
def ofInt (i : Int) : Binary64 := ofRatio (i < 0) i.natAbs 1

/-- The exact magnitude of a finite double, as a quotient. -/
def ratio (mantissa exponent : Nat) : Nat × Nat :=
  if 1074 ≤ exponent then (mantissa * Nat.pow 2 (exponent - 1074), 1)
  else (mantissa, Nat.pow 2 (1074 - exponent))

/-- A double multiplied by a whole number, rounded once. -/
def scale (x : Binary64) (k : Nat) : Binary64 :=
  match x.read with
  | .finite negative mantissa exponent =>
    let (num, den) := ratio mantissa exponent
    ofRatio negative (num * k) den
  | _ => x

end Binary64

end SyntaxForest.Number
