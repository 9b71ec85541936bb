import SyntaxForest.Number.Reading
import SyntaxForest.Text.Quoted

/-!
# Reading integers

An integer is written with digits of any script and a sign, between blanks, and
single underscores may stand between decimal digits. There is a limit to the
number of digits in base ten.
-/

namespace SyntaxForest.Number

open Text

/-- Why a text is no integer. -/
inductive IntegerFault
  | notDigits (base : Nat) (text : String)
  | tooMany (count : Nat)
  deriving DecidableEq, Repr

/-- The greatest number of decimal digits that are read. -/
def digitLimit : Nat := 4300

/-- The wording of a fault. -/
def IntegerFault.message : IntegerFault → String
  | .notDigits base text =>
    "invalid literal for int() with base " ++ toString base ++ ": " ++ quoted text
  | .tooMany count =>
    "Exceeds the limit (" ++ toString digitLimit
      ++ " digits) for integer string conversion: value has " ++ toString count
      ++ " digits; use sys.set_int_max_str_digits() to increase the limit"

/-- The value of a digit in a base. -/
def digitValue? (base : Nat) (c : Char) : Option Nat :=
  let small := c.toLower
  let value? :=
    if 'a' ≤ small && small ≤ 'z' then some (small.toNat - 87) else decimalValue? c
  value?.filter (· < base)

/-- **The integer that a text writes in a base.** -/
def readInteger (base : Nat) (s : String) : Except IntegerFault Int :=
  let (negative, written) := takeSign (bare s).toList
  let digits? := (dropUnderscores ' ' (written.map asciiDigit)).bind fun digits =>
    if digits.isEmpty then none else digits.mapM (digitValue? base)
  match digits? with
  | none => .error (.notDigits base s)
  | some ds =>
    if base = 10 ∧ digitLimit < ds.length then .error (.tooMany ds.length)
    else
      let n : Int := (ds.foldl (fun n d => base * n + d) 0 : Nat)
      .ok (if negative then -n else n)

end SyntaxForest.Number
