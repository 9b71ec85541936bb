import SyntaxForest.Text.ClassTable

/-!
# Character classes

Blanks, digits and printable characters, over all of Unicode. Text that comes
from files, manifests and settings is trimmed, split and read as numbers by
these classes, so an ASCII reading would change what is found.
-/

namespace SyntaxForest.Text

/-- Whether a code point lies in the class that starts outside and flips at
each of the sorted `flips`: an odd number of flips has passed. -/
def inFlips (flips : List Nat) (code : Nat) : Bool :=
  (flips.takeWhile (· ≤ code)).length % 2 == 1

/-- **Blank characters**: the ASCII controls tab to return and the four
separators, the space, and Unicode's spaces and line separators. -/
def isBlank (c : Char) : Bool :=
  let n := c.toNat
  (0x09 ≤ n && n ≤ 0x0D) || (0x1C ≤ n && n ≤ 0x20) || n == 0x85 || n == 0xA0
    || n == 0x1680 || (0x2000 ≤ n && n ≤ 0x200A) || n == 0x2028 || n == 0x2029
    || n == 0x202F || n == 0x205F || n == 0x3000

/-- Characters that are shown as themselves in quoted text. -/
def isPrintable (c : Char) : Bool :=
  if c.toNat < 0x7F then 0x20 ≤ c.toNat else !inFlips unprintableFlips c.toNat

/-- The value of a decimal digit, in whatever script it is written. -/
def decimalValue? (c : Char) : Option Nat :=
  (decimalZeros.find? fun start => start ≤ c.toNat && c.toNat < start + 10).map (c.toNat - ·)

/-- Digits of any kind; some, such as superscripts, have no place in a decimal
numeral. -/
def isDigit (c : Char) : Bool :=
  (decimalValue? c).isSome || inFlips otherDigitFlips c.toNat

/-! ## Trimming -/

/-- A text without its leading blanks. -/
def trimLeft (s : String) : String := String.ofList (s.toList.dropWhile isBlank)

/-- A text without the trailing characters of a class. -/
def trimRightBy (p : Char → Bool) (s : String) : String :=
  String.ofList (s.toList.reverse.dropWhile p).reverse

/-- A text without its trailing blanks. -/
def trimRight (s : String) : String := trimRightBy isBlank s

/-- A text without blanks at either end. -/
def trim (s : String) : String := trimRight (trimLeft s)

/-- A text that is empty or holds blanks only. -/
def isBlankText (s : String) : Bool := s.toList.all isBlank

end SyntaxForest.Text
