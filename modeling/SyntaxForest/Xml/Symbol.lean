import SyntaxForest.Text.Class
import SyntaxForest.Xml.NameTable

/-!
# The characters of a document

A document is read as a list of characters. Two code points that are never
characters of a document stand for what could not be read: one for bytes that
mean nothing, one for a character that the end of the file cuts off.
-/

namespace SyntaxForest.Xml

/-- Stands for bytes that are no character. -/
def illegal : Char := '\x00'

/-- Stands for a character of which the end of the document leaves out a part. -/
def cutOff : Char := '\uFFFF'

/-- Blanks of the markup. -/
def isSpace (c : Char) : Bool := c == ' ' || c == '\t' || c == '\n' || c == '\r'

/-- **Characters that may not stand in a document**: most controls and the two
code points that are no characters. -/
def isForbidden (c : Char) : Bool :=
  (c.toNat < 0x20 && !isSpace c) || c.toNat == 0xFFFE || c == cutOff

/-- Characters that begin a name. A colon has a meaning of its own. -/
def isNameStart (c : Char) : Bool :=
  if c.toNat < 0x80 then c.isAlpha || c == '_'
  else c != cutOff && Text.inFlips nameStartFlips c.toNat

/-- Characters that stand inside a name. -/
def isNameChar (c : Char) : Bool :=
  isNameStart c
    || (if c.toNat < 0x80 then c.isDigit || c == '.' || c == '-'
        else c != cutOff && Text.inFlips nameInsideFlips c.toNat)

/-- The character with a number, if a document may hold it. -/
def charOfNumber? (n : Nat) : Option Char :=
  if h : n.isValidChar then
    let c := Char.ofNatAux n h
    if isForbidden c then none else some c
  else none

end SyntaxForest.Xml
