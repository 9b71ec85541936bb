import SyntaxForest.Text.Class

/-!
# Cutting text

Splitting at a separator, the parts before a first and after a last character,
and the tests for how a text begins and ends. All work on characters, and a
separator is found from the left without overlap.
-/

namespace SyntaxForest.Text

/-- The rest of a list after a leading `front`, if it starts with it. -/
def dropFront? : List Char → List Char → Option (List Char)
  | [], rest => some rest
  | _ :: _, [] => none
  | a :: front, b :: rest => if a = b then dropFront? front rest else none

/-- What a found `front` leaves is shorter by its length. -/
theorem length_of_dropFront? {front s rest : List Char} (h : dropFront? front s = some rest) :
    s.length = front.length + rest.length := by
  induction front generalizing s with
  | nil => simp_all [dropFront?]
  | cons a front ih =>
    cases s with
    | nil => simp [dropFront?] at h
    | cons b s =>
      simp only [dropFront?] at h
      split at h
      · simp [ih h]; omega
      · simp at h

/-- The pieces of a list between the occurrences of the separator
`first :: more`, after `piece`, the characters of the first piece already read
(last first). -/
def splitAfter (first : Char) (more piece : List Char) : List Char → List (List Char)
  | [] => [piece.reverse]
  | c :: rest =>
    match _found : dropFront? (first :: more) (c :: rest) with
    | some left => piece.reverse :: splitAfter first more [] left
    | none => splitAfter first more (c :: piece) rest
termination_by s => s.length
decreasing_by
  · have := length_of_dropFront? _found; simp at this ⊢; omega
  · simp

/-- **The pieces of a text between the occurrences of a separator**, at least
one. An empty separator never occurs. -/
def split (sep s : String) : List String :=
  match sep.toList with
  | [] => [s]
  | first :: more => (splitAfter first more [] s.toList).map String.ofList

/-- The words of a list of characters, after the characters of a word already
begun (last first). -/
def wordsAfter (word : List Char) : List Char → List (List Char)
  | [] => if word.isEmpty then [] else [word.reverse]
  | c :: rest =>
    if isBlank c then
      if word.isEmpty then wordsAfter [] rest else word.reverse :: wordsAfter [] rest
    else wordsAfter (c :: word) rest

/-- **The words of a text**: what stands between blanks. -/
def words (s : String) : List String := (wordsAfter [] s.toList).map String.ofList

/-- The part of a text before the first occurrence of a character, or all of
it. -/
def beforeFirst (c : Char) (s : String) : String :=
  String.ofList (s.toList.takeWhile (· != c))

/-- The part of a text after the last occurrence of a character, or all of it. -/
def afterLast (c : Char) (s : String) : String :=
  String.ofList (s.toList.reverse.takeWhile (· != c)).reverse

/-- Whether a text begins with another. -/
def startsWith (s front : String) : Bool := (dropFront? front.toList s.toList).isSome

/-- Whether a text ends with another. -/
def endsWith (s tail : String) : Bool :=
  (dropFront? tail.toList.reverse s.toList.reverse).isSome

/-- A text with one character put in the place of another. -/
def replaceChar (old new : Char) (s : String) : String :=
  String.ofList (s.toList.map fun c => if c = old then new else c)

/-- Texts joined with a separator between neighbours. -/
def join (sep : String) : List String → String
  | [] => ""
  | [s] => s
  | s :: rest => s ++ sep ++ join sep rest

/-! ## Order -/

/-- Texts in the order of their characters' code points. -/
def sorted (l : List String) : List String := l.mergeSort fun a b => !(b < a)

/-- A list without repetitions side by side. -/
def squeeze : List String → List String
  | a :: b :: rest => if a = b then squeeze (b :: rest) else a :: squeeze (b :: rest)
  | l => l

/-- The set of texts in a list, in order. -/
def sortedSet (l : List String) : List String := squeeze (sorted l)

end SyntaxForest.Text
