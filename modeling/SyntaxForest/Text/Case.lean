import SyntaxForest.Text.CaseTable
import SyntaxForest.Text.Class

/-!
# Letter case

Small and capital forms of a text by Unicode's full mappings. A character can
become several (`ß` is capitalised as `SS`), and one mapping looks at its
neighbours: a capital sigma becomes the final form `ς` at the end of a word and
`σ` elsewhere.
-/

namespace SyntaxForest.Text

namespace CaseRange

/-- Whether a code point is one of the run's. -/
def has (r : CaseRange) (code : Nat) : Bool :=
  r.first ≤ code && code ≤ r.last && (code - r.first) % r.step == 0

/-- Where the run sends a code point. -/
def move (r : CaseRange) (code : Nat) : Nat := (Int.ofNat code + r.shift).toNat

end CaseRange

/-- The mapping of one character by a table of runs and a table of expansions. -/
def mapCase (ranges : List CaseRange) (expansions : List (Nat × List Nat)) (c : Char) :
    List Char :=
  match ranges.find? (·.has c.toNat) with
  | some r => [Char.ofNat (r.move c.toNat)]
  | none =>
    match expansions.lookup c.toNat with
    | some codes => codes.map Char.ofNat
    | none => [c]

/-- The small form of one character, with no regard to its neighbours. -/
def lowerChar (c : Char) : List Char :=
  if c.toNat < 0x80 then [c.toLower] else mapCase lowerRanges lowerExpansions c

/-- The capital form of one character. -/
def upperChar (c : Char) : List Char :=
  if c.toNat < 0x80 then [c.toUpper] else mapCase upperRanges upperExpansions c

/-- The capital letter sigma, whose small form depends on its place in the word. -/
def capitalSigma : Char := 'Σ'

/-- Whether the first character that a sigma does not look through is a cased
letter. -/
def seesCased (cs : List Char) : Bool :=
  match cs.dropWhile (inFlips ignorableFlips ·.toNat) with
  | c :: _ => inFlips casedFlips c.toNat
  | [] => false

/-- The small form of the characters `rest`, which follow `before` (last first). -/
def lowerAfter (before : List Char) : List Char → List Char
  | [] => []
  | c :: rest =>
    let small :=
      if c = capitalSigma then
        if seesCased before && !seesCased rest then ['ς'] else ['σ']
      else lowerChar c
    small ++ lowerAfter (c :: before) rest

/-- **The small form of a text.** -/
def lower (s : String) : String := String.ofList (lowerAfter [] s.toList)

/-- **The capital form of a text.** -/
def upper (s : String) : String := String.ofList (s.toList.flatMap upperChar)

end SyntaxForest.Text
