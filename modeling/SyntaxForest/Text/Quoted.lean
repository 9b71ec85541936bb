import SyntaxForest.Text.Class

/-!
# Quoted text

Text inside messages stands between quotes and shows every character that is not
printable by its code. Single quotes are used unless the text holds one and no
double quote, so that a quote has to be escaped only where both occur.
-/

namespace SyntaxForest.Text

/-- A number in small hexadecimal digits, padded with zeros to a width. -/
def hexPadded (width n : Nat) : String :=
  let digits := Nat.toDigits 16 n
  String.ofList (List.replicate (width - digits.length) '0' ++ digits)

namespace Quoted

/-- The quote that a text is put between. -/
def mark (s : String) : Char :=
  if s.toList.contains '\'' && !s.toList.contains '"' then '"' else '\''

/-- How one character is written between the quotes `quote`. -/
def escape (quote c : Char) : String :=
  if c = quote ∨ c = '\\' then String.ofList ['\\', c]
  else if c = '\t' then "\\t"
  else if c = '\n' then "\\n"
  else if c = '\r' then "\\r"
  else if isPrintable c then c.toString
  else if c.toNat < 0x100 then "\\x" ++ hexPadded 2 c.toNat
  else if c.toNat < 0x10000 then "\\u" ++ hexPadded 4 c.toNat
  else "\\U" ++ hexPadded 8 c.toNat

end Quoted

/-- **A text between quotes.** -/
def quoted (s : String) : String :=
  let quote := Quoted.mark s
  quote.toString ++ String.join (s.toList.map (Quoted.escape quote)) ++ quote.toString

/-- Bytes between quotes, each that is no printable ASCII character by its
code. -/
def quotedBytes (bytes : List UInt8) : String :=
  let text := String.ofList (bytes.map fun b => Char.ofNat b.toNat)
  let quote := Quoted.mark text
  let escape (c : Char) : String :=
    if c.toNat < 0x7F then Quoted.escape quote c else "\\x" ++ hexPadded 2 c.toNat
  "b" ++ quote.toString ++ String.join (text.toList.map escape) ++ quote.toString

end SyntaxForest.Text
