import SyntaxForest.Template.Construct
import SyntaxForest.Text.Case

/-!
# The lexical rules of a template

Where words, string and character literals, comments, brackets and elements end.
Every rule reads a source between a position and the `stop` of the range it was
asked about, and answers with a position that is no smaller; the lower bound is
part of the answer's type, because the scanner's recursion rests on it.

A bracket is closed by the bracket that balances it, once literals and comments
are skipped. An element ends at the end tag that balances its start tag; one
that is never closed ends with the range.
-/

namespace SyntaxForest.Template

/-- What a construct that never ends was. -/
inductive Unclosed
  | comment
  | block
  | expression
  deriving DecidableEq, Repr

/-- The wording of an unclosed construct. -/
def Unclosed.text : Unclosed → String
  | .comment => "comment"
  | .block => "block"
  | .expression => "expression"

/-- **Why scanning stops.** -/
inductive Fault
  /-- A construct opened at an offset is never closed. -/
  | unterminated (what : Unclosed) (offset : Nat)
  /-- A position outside the source was read. -/
  | outside (offset : Nat)
  /-- A bracket was to be matched where there is none. -/
  | notBracket (offset : Nat)
  deriving DecidableEq, Repr

/-- A scan: an answer or a fault. -/
abbrev Scan := Except Fault

/-- A position no smaller than `i`. -/
abbrev AtLeast (i : Nat) := { n : Nat // i ≤ n }

/-- The position `i` itself. -/
def AtLeast.here (i : Nat) : AtLeast i := ⟨i, Nat.le_refl i⟩

/-- A position seen from an earlier one. -/
def AtLeast.widen {i n : Nat} (h : i ≤ n) (m : AtLeast n) : AtLeast i := ⟨m.1, Nat.le_trans h m.2⟩

namespace Lexical

/-- The byte at a position, which has to be inside the source. -/
def byteAt (src : Bytes) (i : Nat) : Scan UInt8 :=
  match src[i]? with
  | some b => .ok b
  | none => .error (.outside i)

/-- The byte after a position, or zero if the range ends there. -/
def byteAfter (src : Bytes) (i stop : Nat) : Scan UInt8 :=
  if i + 1 < stop then byteAt src (i + 1) else .ok 0

/-- The byte `back` positions before `i`, which has to be inside the source. -/
def byteBefore (src : Bytes) (i back : Nat) : Scan UInt8 :=
  if back ≤ i then byteAt src (i - back) else .error (.outside i)

/-- Whether the byte at `i` lies inside the range and is `b`. -/
def isAt (src : Bytes) (b : UInt8) (i stop : Nat) : Scan Bool :=
  if i < stop then return (← byteAt src i) == b else .ok false

/-- The text of a range; a character that the range cuts is replaced. -/
def textOf (src : Bytes) (start stop : Nat) : String :=
  Text.Utf8.decodeLenient (src.slice start stop)

/-- The position just past the first `needle` from `i` on, or `stop`. -/
def pastOrStop (src : Bytes) (needle : List UInt8) (i stop : Nat) {low : Nat}
    (hi : low ≤ i) (hs : low ≤ stop) : AtLeast low :=
  match h : src.find needle i stop with
  | some found => ⟨found + needle.length, by have := Bytes.find_bounds h; omega⟩
  | none => ⟨stop, hs⟩

/-- The position of the first `needle` from `i` on, or `stop`. -/
def upTo (src : Bytes) (needle : List UInt8) (i stop : Nat) {low : Nat}
    (hi : low ≤ i) (hs : low ≤ stop) : AtLeast low :=
  match h : src.find needle i stop with
  | some found => ⟨found, by have := Bytes.find_bounds h; omega⟩
  | none => ⟨stop, hs⟩

/-! ## Blanks and words -/

/-- Past the bytes of a class. -/
def skipWhile (p : UInt8 → Bool) (src : Bytes) (i stop : Nat) : Scan (AtLeast i) :=
  if i < stop then do
    if p (← byteAt src i) then
      let ⟨n, h⟩ ← skipWhile p src (i + 1) stop
      return ⟨n, by omega⟩
    else return .here i
  else .ok (.here i)
termination_by stop - i

/-- Past blanks. -/
def skipBlanks (src : Bytes) (i stop : Nat) : Scan (AtLeast i) :=
  skipWhile Bytes.isBlank src i stop

/-- Past the rest of an identifier. -/
def identifierEnd (src : Bytes) (i stop : Nat) : Scan (AtLeast i) :=
  skipWhile Bytes.inWord src i stop

/-- Whether an identifier begins at `i`, inside the range. -/
def wordStartsAt (src : Bytes) (i stop : Nat) : Scan Bool :=
  if i < stop then return Bytes.startsWord (← byteAt src i) else .ok false

/-- **The identifier at a position** and where it ends; without one, the empty
text. -/
def wordAt (src : Bytes) (i stop : Nat) : Scan (String × AtLeast i) := do
  if ← wordStartsAt src i stop then
    let n ← identifierEnd src i stop
    return (textOf src i n, n)
  else return ("", .here i)

/-! ## Literals -/

/-- The quote that closes a string, from `cursor` on: a backslash escapes the
byte after it, and a string does not pass the end of its line. -/
def stringClose? (src : Bytes) (cursor stop : Nat) : Scan (Option (AtLeast cursor)) :=
  if cursor < stop then do
    let b ← byteAt src cursor
    if b == 0x22 then return some (.here cursor)
    else if b == 0x0A then return none
    else if b == 0x5C then
      return (← stringClose? src (cursor + 2) stop).map fun ⟨n, h⟩ => ⟨n, by omega⟩
    else
      return (← stringClose? src (cursor + 1) stop).map fun ⟨n, h⟩ => ⟨n, by omega⟩
  else .ok none
termination_by stop - cursor

/-- Past a string literal that opens at `i`; an unclosed quote is plain text. -/
def skipString (src : Bytes) (i stop : Nat) : Scan (AtLeast (i + 1)) := do
  match ← stringClose? src (i + 1) stop with
  | some ⟨n, h⟩ => return ⟨n + 1, by omega⟩
  | none => return .here (i + 1)

/-- The quote that closes a verbatim string, from `cursor` on: a doubled quote
stands for one. -/
def verbatimClose? (src : Bytes) (cursor stop : Nat) : Scan (Option (AtLeast cursor)) :=
  if cursor < stop then do
    if (← byteAt src cursor) == 0x22 then
      if ← isAt src 0x22 (cursor + 1) stop then
        return (← verbatimClose? src (cursor + 2) stop).map fun ⟨n, h⟩ => ⟨n, by omega⟩
      else return some (.here cursor)
    else
      return (← verbatimClose? src (cursor + 1) stop).map fun ⟨n, h⟩ => ⟨n, by omega⟩
  else .ok none
termination_by stop - cursor

/-- Past a verbatim string whose `@` stands at `i`; an unclosed one is plain
text. -/
def skipVerbatim (src : Bytes) (i stop : Nat) : Scan (AtLeast (i + 1)) := do
  match ← verbatimClose? src (i + 2) stop with
  | some ⟨n, h⟩ => return ⟨n + 1, by omega⟩
  | none => return .here (i + 1)

/-- Past a character literal that opens at `i`. The closing apostrophe has to
follow within nine bytes, on the same line; an apostrophe without one is plain
text. -/
def skipChar (src : Bytes) (i stop : Nat) : AtLeast (i + 1) :=
  match h : src.find [0x27] (i + 1) (min stop (i + 10)) with
  | some close =>
    if (src.slice i close).contains Bytes.newline then .here (i + 1)
    else ⟨close + 1, by have := Bytes.find_bounds h; omega⟩
  | none => .here (i + 1)

/-! ## Brackets -/

/-- The kinds of brackets. -/
inductive Bracket
  | round
  | square
  | curly
  deriving DecidableEq, Repr

namespace Bracket

/-- The opening bracket. -/
def opener : Bracket → UInt8
  | .round => 0x28
  | .square => 0x5B
  | .curly => 0x7B

/-- The closing bracket. -/
def closer : Bracket → UInt8
  | .round => 0x29
  | .square => 0x5D
  | .curly => 0x7D

/-- The bracket that a byte opens. -/
def ofOpener? (b : UInt8) : Option Bracket :=
  [round, square, curly].find? fun k => k.opener == b

/-- What is left unterminated if the bracket is never closed. -/
def unclosed : Bracket → Unclosed
  | .curly => .block
  | .round | .square => .expression

end Bracket

/-- **One step of the search for a closing bracket** with `depth` brackets open:
a literal, a comment or a byte is passed, and the depth changes at a bracket.
There is no next position if the bracket closes here. -/
def bracketStep (src : Bytes) (k : Bracket) (stop depth cursor : Nat) (h : cursor < stop) :
    Scan (Option (AtLeast (cursor + 1) × Nat)) := do
  let b ← byteAt src cursor
  let following ← byteAfter src cursor stop
  if b == 0x22 then return some (← skipString src cursor stop, depth)
  else if b == 0x27 then return some (skipChar src cursor stop, depth)
  else if b == 0x40 && following == 0x22 then
    return some (← skipVerbatim src cursor stop, depth)
  else if b == 0x40 && following == 0x2A then
    match hc : src.find [0x2A, 0x40] (cursor + 2) stop with
    | some close =>
      return some (⟨close + 2, by have := Bytes.find_bounds hc; omega⟩, depth)
    | none => throw (.unterminated .comment cursor)
  else if b == 0x2F && following == 0x2F then
    return some (pastOrStop src [0x0A] (cursor + 1) stop (Nat.le_refl _) h, depth)
  else if b == 0x2F && following == 0x2A then
    return some (pastOrStop src [0x2A, 0x2F] (cursor + 2) stop (by omega) h, depth)
  else if b == k.opener then return some (.here (cursor + 1), depth + 1)
  else if b == k.closer then
    if depth ≤ 1 then return none else return some (.here (cursor + 1), depth - 1)
  else return some (.here (cursor + 1), depth)

/-- The bracket that brings the depth to zero, from `cursor` on. -/
def closingFrom (src : Bytes) (k : Bracket) (opening stop depth cursor : Nat) :
    Scan { n : Nat // cursor ≤ n ∧ n < stop } :=
  if h : cursor < stop then do
    match ← bracketStep src k stop depth cursor h with
    | none => return ⟨cursor, Nat.le_refl cursor, h⟩
    | some (⟨next, hn⟩, depth) =>
      let ⟨n, h₁, h₂⟩ ← closingFrom src k opening stop depth next
      return ⟨n, by omega, h₂⟩
  else .error (.unterminated k.unclosed opening)
termination_by stop - cursor

/-- **The bracket that closes the one at `i`.** -/
def closing (src : Bytes) (i stop : Nat) : Scan { n : Nat // i < n ∧ n < stop } := do
  let b ← byteAt src i
  match Bracket.ofOpener? b with
  | some k =>
    let ⟨n, h⟩ ← closingFrom src k i stop 1 (i + 1)
    return ⟨n, by omega⟩
  | none => throw (.notBracket i)

/-! ## Elements -/

/-- Elements that have no end tag. -/
def voidElements : List String :=
  ["area", "base", "br", "col", "embed", "hr", "img", "input", "link", "meta", "source",
    "track", "wbr"]

/-- Past the end of a tag, from `cursor` on; quoted attribute values may hold any
byte. A tag never ended runs to the end of the range. -/
def tagEndFrom (src : Bytes) (cursor stop : Nat) : Scan (AtLeast (min cursor stop)) :=
  if cursor < stop then do
    let b ← byteAt src cursor
    if b == 0x22 || b == 0x27 then
      match h : src.find [b] (cursor + 1) stop with
      | some close =>
        have := Bytes.find_bounds h
        let ⟨n, hn⟩ ← tagEndFrom src (close + 1) stop
        return ⟨n, by omega⟩
      | none => return ⟨stop, Nat.min_le_right _ _⟩
    else if b == 0x3E then return ⟨cursor + 1, by omega⟩
    else
      let ⟨n, hn⟩ ← tagEndFrom src (cursor + 1) stop
      return ⟨n, by omega⟩
  else .ok ⟨stop, Nat.min_le_right _ _⟩
termination_by stop - cursor

/-- Past the end of the tag that opens at `lt`. -/
def tagEnd (src : Bytes) (lt stop : Nat) : Scan (AtLeast (min (lt + 1) stop)) :=
  tagEndFrom src (lt + 1) stop

/-- A byte of a tag's name. -/
def inTagName (b : UInt8) : Bool := Bytes.inWord b || b == 0x2D || b == 0x3A || b == 0x2E

/-- Past a tag's name. -/
def tagNameEnd (src : Bytes) (i stop : Nat) : Scan (AtLeast i) := skipWhile inTagName src i stop

/-- Whether the tag whose name begins at `i` has the name `name`. -/
def hasTagName (src name : Bytes) (i stop : Nat) : Scan Bool := do
  let n ← tagNameEnd src i stop
  return n.1 == i + name.size && src.slice i (i + name.size) == name

/-- Past the end tag that balances `depth` open elements of one name, from
`cursor` on; a self-closing tag opens nothing. -/
def elementEndFrom (src name : Bytes) (stop depth cursor : Nat) :
    Scan (AtLeast (min cursor stop)) :=
  if cursor < stop then
    match h : src.find [0x3C] cursor stop with
    | none => .ok ⟨stop, Nat.min_le_right _ _⟩
    | some lt => do
      have hb := Bytes.find_bounds h
      have hlt : lt + 1 ≤ stop := hb.2.1
      let isEnd ← isAt src 0x2F (lt + 1) stop
      if ← hasTagName src name (if isEnd then lt + 2 else lt + 1) stop then
        let ⟨next, hn⟩ ← tagEnd src lt stop
        if isEnd then
          if depth ≤ 1 then return ⟨next, by omega⟩
          else
            let ⟨n, hm⟩ ← elementEndFrom src name stop (depth - 1) next
            return ⟨n, by omega⟩
        else
          let closed := (← byteBefore src next 2) == 0x2F
          let ⟨n, hm⟩ ← elementEndFrom src name stop (if closed then depth else depth + 1) next
          return ⟨n, by omega⟩
      else
        let ⟨n, hm⟩ ← elementEndFrom src name stop depth (lt + 1)
        return ⟨n, by omega⟩
  else .ok ⟨stop, Nat.min_le_right _ _⟩
termination_by stop - cursor
decreasing_by all_goals omega

/-- **Past the element that opens at `lt`**: an end tag, a tag that is not closed,
a self-closing tag and an element without end tag end with the tag itself. -/
def elementEnd (src : Bytes) (lt stop : Nat) : Scan (AtLeast (min (lt + 1) stop)) := do
  let ⟨tagStop, h⟩ ← tagEnd src lt stop
  let first ← byteAt src (lt + 1)
  -- a range that ends with the bracket holds no more of the tag
  if first == 0x2F || tagStop ≤ lt + 1 then return ⟨tagStop, h⟩
  else if (← byteBefore src tagStop 1) != 0x3E then return ⟨tagStop, h⟩
  else
    let nameStop ← tagNameEnd src (lt + 1) stop
    let name := src.slice (lt + 1) nameStop
    if (← byteBefore src tagStop 2) == 0x2F
        || voidElements.contains (Text.lower (Text.Utf8.decodeLenient name)) then
      return ⟨tagStop, h⟩
    else
      let ⟨n, hn⟩ ← elementEndFrom src name stop 1 tagStop
      return ⟨n, by omega⟩

end Lexical

end SyntaxForest.Template
