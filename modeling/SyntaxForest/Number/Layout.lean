import SyntaxForest.Number.Shortest

/-!
# How numbers are written

Doubles are written with the fewest digits that read back, positionally while
the point stays near the digits and with an exponent beyond; shares are written
as whole percentages.
-/

namespace SyntaxForest.Number

/-- **The decisions of a layout of doubles.** -/
structure FloatLayout where
  /-- Positional notation needs the point after this many places at least. -/
  leastPoint : Int
  /-- Positional notation needs the point after this many places at most. -/
  mostPoint : Int
  /-- The least number of exponent digits. -/
  exponentWidth : Nat
  nan : String
  infinity : String

/-- **How a double is shown**: the point within sixteen places and at most three
zeros behind it, two exponent digits, and a fraction always. -/
def FloatLayout.shown : FloatLayout := ⟨-3, 16, 2, "nan", "inf"⟩

/-- How a double is written in JSON: as it is shown, with JSON's words for the
values that are no numbers. -/
def FloatLayout.json : FloatLayout := ⟨-3, 16, 2, "NaN", "Infinity"⟩

/-- A text padded with zeros in front to a width. -/
def padZeros (width : Nat) (s : String) : String :=
  String.ofList (List.replicate (width - s.length) '0') ++ s

namespace FloatLayout

/-- The text of a positive decimal. -/
def decimal (l : FloatLayout) (d : Decimal) : String :=
  let digits := toString d.digits
  let point := d.exponent + digits.length
  if l.leastPoint ≤ point ∧ point ≤ l.mostPoint then
    if point ≤ 0 then "0." ++ padZeros (digits.length + (-point).toNat) digits
    else if (digits.length : Int) ≤ point then
      digits ++ String.ofList (List.replicate (point.toNat - digits.length) '0') ++ ".0"
    else
      String.ofList (digits.toList.take point.toNat) ++ "."
        ++ String.ofList (digits.toList.drop point.toNat)
  else
    let power := point - 1
    let mantissa :=
      if digits.length = 1 then digits
      else String.ofList (digits.toList.take 1) ++ "." ++ String.ofList (digits.toList.drop 1)
    mantissa ++ "e" ++ (if power < 0 then "-" else "+")
      ++ padZeros l.exponentWidth (toString power.natAbs)

/-- **The text of a double.** -/
def text (l : FloatLayout) (x : Binary64) : String :=
  match x.read with
  | .nan => l.nan
  | .infinite negative => (if negative then "-" else "") ++ l.infinity
  | .finite negative mantissa exponent =>
    (if negative then "-" else "")
      ++ (if mantissa = 0 then "0.0" else l.decimal (shortest mantissa exponent))

end FloatLayout

/-- **A share as a whole percentage**: a hundred times the double, itself a
double, rounded to the nearest whole number, a half going to the even one. -/
def percent (x : Binary64) : String :=
  match (x.scale 100).read with
  | .nan => "nan%"
  | .infinite negative => (if negative then "-" else "") ++ "inf%"
  | .finite negative mantissa exponent =>
    let (num, den) := Binary64.ratio mantissa exponent
    (if negative then "-" else "") ++ toString (Binary64.roundQuotient num den) ++ "%"

end SyntaxForest.Number
