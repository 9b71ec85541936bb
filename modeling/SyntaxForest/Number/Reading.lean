import SyntaxForest.Number.Binary64
import SyntaxForest.Text.Class

/-!
# Reading numbers from text

Integers and doubles as settings write them: blanks around, decimal digits of
any script, and for doubles single underscores between digits, a point, an
exponent, and the words for infinity and nan.
-/

namespace SyntaxForest.Number

open Text

/-- The number that a list of decimal digits writes. -/
def ofDigits (ds : List Nat) : Nat := ds.foldl (fun n d => 10 * n + d) 0

/-- The digits of a text, if it holds decimal digits only, and some. -/
def decimalDigits? (cs : List Char) : Option (List Nat) :=
  if cs.isEmpty then none else cs.mapM decimalValue?

/-- A character as numbers are read: a digit of any script as its ASCII digit. -/
def asciiDigit (c : Char) : Char :=
  match decimalValue? c with
  | some d => Nat.digitChar d
  | none => c

/-- Drops underscores, each of which has to stand between two digits; `before` is
the character last read. -/
def dropUnderscores (before : Char) : List Char → Option (List Char)
  | [] => some []
  | '_' :: c :: rest =>
    if before.isDigit && c.isDigit then (dropUnderscores c rest).map (c :: ·) else none
  | c :: rest => if c = '_' then none else (dropUnderscores c rest).map (c :: ·)

/-- A sign in front of a text, and the rest. -/
def takeSign : List Char → Bool × List Char
  | '-' :: rest => (true, rest)
  | '+' :: rest => (false, rest)
  | cs => (false, cs)

/-- The double `digits * 10 ^ exponent`. A power far outside the range of doubles
is not computed: it is zero or infinite in any case. -/
def ofDecimal (negative : Bool) (digits : Nat) (size : Nat) (exponent : Int) : Binary64 :=
  if digits = 0 then .ofMagnitude negative 0
  else if 400 < exponent + size then .infinity negative
  else if exponent + size < -400 then .ofMagnitude negative 0
  else if 0 ≤ exponent then .ofRatio negative (digits * Nat.pow 10 exponent.toNat) 1
  else .ofRatio negative digits (Nat.pow 10 (-exponent).toNat)

/-- The exponent part of a numeral: none, or a mark, a sign and digits. -/
def exponent? : List Char → Option Int
  | [] => some 0
  | c :: rest =>
    if c = 'e' || c = 'E' then
      let (negative, digits) := takeSign rest
      (decimalDigits? digits).map fun ds =>
        if negative then -(ofDigits ds : Int) else (ofDigits ds : Int)
    else none

/-- An unsigned numeral: digits with at most one point among them, at least one
digit, and an exponent. -/
def numeral? (negative : Bool) (cs : List Char) : Option Binary64 :=
  let whole := cs.takeWhile Char.isDigit
  let rest := cs.dropWhile Char.isDigit
  let (fraction, rest) :=
    match rest with
    | '.' :: more => (more.takeWhile Char.isDigit, more.dropWhile Char.isDigit)
    | _ => ([], rest)
  match decimalDigits? (whole ++ fraction), exponent? rest with
  | some ds, some power =>
    let ds := ds.dropWhile (· == 0)
    some (ofDecimal negative (ofDigits ds) ds.length (power - fraction.length))
  | _, _ => none

/-- Whether a character may stand around a number: a blank, but none of the four
separators of ASCII. -/
def isAround (c : Char) : Bool := isBlank c && !('\x1C' ≤ c && c ≤ '\x1F')

/-- A text without what may stand around a number. -/
def bare (s : String) : String :=
  trimRightBy isAround (String.ofList (s.toList.dropWhile isAround))

/-- **The double that a text writes**, if it writes one. -/
def readFloat? (s : String) : Option Binary64 :=
  match dropUnderscores ' ' ((bare s).toList.map asciiDigit) with
  | none => none
  | some cs =>
    let (negative, body) := takeSign cs
    let word := String.ofList (body.map Char.toLower)
    if word = "inf" || word = "infinity" then some (.infinity negative)
    else if word = "nan" then some (.nan negative)
    else numeral? negative body

end SyntaxForest.Number
