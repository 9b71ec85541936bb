import SyntaxForest.Text.Split

/-!
# Going through a settings text

A cursor is a place in a text with its line and its column, which decide what
indented layout means. Lines end at a line feed, or at one of three other
characters that end lines; carriage returns have been replaced before. What
lies behind the end is seen as a null character, which no text holds.
-/

namespace SyntaxForest.Yaml

/-! ## Characters -/

/-- Whether a character ends a line. -/
def isBreak (c : Char) : Bool := c == '\n' || c == '\u0085' || c == '\u2028' || c == '\u2029'

/-- Whether a line or the text ends here. -/
def isEnd (c : Char) : Bool := c == '\x00' || isBreak c

/-- Whether a token cannot go on here without question: a line ends, or there is
a space. -/
def isSpaceOrEnd (c : Char) : Bool := c == ' ' || isEnd c

/-- Whether there is white space here or a line ends. -/
def isGap (c : Char) : Bool := c == '\t' || isSpaceOrEnd c

/-- Whether a character is a space or a tab. -/
def isWhite (c : Char) : Bool := c == ' ' || c == '\t'

/-- Whether a character may be part of a name. -/
def isNameChar (c : Char) : Bool := c.isAlphanum || c == '-' || c == '_'

/-- Whether a text may hold a character at all. -/
def isAllowed (c : Char) : Bool :=
  let n := c.toNat
  n == 0x09 || n == 0x0A || n == 0x0D || (0x20 ≤ n && n ≤ 0x7E) || n == 0x85
    || (0xA0 ≤ n && n ≤ 0xD7FF) || (0xE000 ≤ n && n ≤ 0xFFFD) || 0x10000 ≤ n

/-! ## Cursors -/

/-- **A place in a text.** -/
structure Cursor where
  rest : List Char
  /-- How many characters lie before. -/
  index : Nat
  line : Nat
  column : Nat
  deriving Repr

namespace Cursor

/-- The beginning of a text. -/
def start (cs : List Char) : Cursor := ⟨cs, 0, 0, 0⟩

/-- The character some places on. -/
def ahead (c : Cursor) (n : Nat) : Char := c.rest[n]?.getD '\x00'

/-- The character here. -/
def here (c : Cursor) : Char := c.ahead 0

/-- One character on. A byte order mark takes no column. -/
def step (c : Cursor) : Cursor :=
  match c.rest with
  | [] => c
  | ch :: rest =>
    if isBreak ch then ⟨rest, c.index + 1, c.line + 1, 0⟩
    else ⟨rest, c.index + 1, c.line, if ch = '\uFEFF' then c.column else c.column + 1⟩

/-- Some characters on. -/
def steps (c : Cursor) (n : Nat) : Cursor := Nat.repeat step n c

/-- The characters from a text on for which a test holds, and the place behind
them. -/
def spanFrom (p : Char → Bool) : List Char → Cursor → List Char × Cursor
  | [], c => ([], c)
  | ch :: rest, c =>
    if p ch then
      let (cs, after) := spanFrom p rest c.step
      (ch :: cs, after)
    else ([], c)

/-- **The characters from here on for which a test holds**, and the place behind
them. -/
def span (p : Char → Bool) (c : Cursor) : List Char × Cursor := spanFrom p c.rest c

/-- The place behind the characters for which a test holds. -/
def skip (p : Char → Bool) (c : Cursor) : Cursor := (c.span p).2

/-- The place behind spaces. -/
def skipSpaces (c : Cursor) : Cursor := c.skip (· == ' ')

/-- The place behind a remark, if there is one. -/
def skipRemark (c : Cursor) : Cursor := if c.here = '#' then c.skip (!isBreak ·) else c

/-- A line's end: the character it stands for, and the place behind it. -/
def lineBreak? (c : Cursor) : Option (Char × Cursor) :=
  if isBreak c.here then
    some (if c.here = '\u2028' ∨ c.here = '\u2029' then c.here else '\n', c.step)
  else none

/-- Whether a given text stands here and white space behind it. -/
def hasMark (c : Cursor) (mark : String) : Bool :=
  (Text.dropFront? mark.toList c.rest).isSome && isGap (c.ahead mark.length)

/-- Whether a line that begins here begins or ends a document. -/
def atDocumentMark (c : Cursor) : Bool := c.hasMark "---" || c.hasMark "..."

end Cursor

/-- A number from hexadecimal digits. -/
def ofHex (cs : List Char) : Option Nat :=
  cs.foldlM (fun n c =>
    if c.isDigit then some (16 * n + (c.toNat - 48))
    else if 'a' ≤ c ∧ c ≤ 'f' then some (16 * n + (c.toNat - 87))
    else if 'A' ≤ c ∧ c ≤ 'F' then some (16 * n + (c.toNat - 55))
    else none) 0

end SyntaxForest.Yaml
