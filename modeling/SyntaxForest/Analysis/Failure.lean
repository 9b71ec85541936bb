import SyntaxForest.Number.Layout
import SyntaxForest.ParseTree
import SyntaxForest.Template.Lexical
import SyntaxForest.Value

/-!
# Why a file is not analysed

A file can belong to no dialect, its grammar can be missing, or it cannot be
parsed: because a construct is left open, because nothing in it was recognised,
or because too much of it is covered by errors.
-/

namespace SyntaxForest

open Number

/-! ## Tolerance of syntax errors

A file is rejected if too large a share of it is covered by syntax errors. The
largest share allowed is a number from nothing to one, and is shown in the form
in which it was given; none at all rejects any error.
-/

/-- **The largest share of errors that is allowed.** -/
inductive Tolerance
  | int (i : Int)
  | real (x : Binary64)
  deriving DecidableEq, Repr, Inhabited

namespace Tolerance

/-- The tolerance as a value. -/
def toValue : Tolerance → Value
  | .int i => .int i
  | .real x => .real x

/-- Where the tolerance is on the line of numbers. -/
def place : Tolerance → Place
  | .int i => .ofInt i
  | .real x => x.place

/-- Whether a number is a share: not below nothing and not above one. -/
def inRange (t : Tolerance) : Bool := (Place.ofInt 0).le t.place && t.place.le (.ofInt 1)

/-- A half: what is allowed unless something else is said. -/
def half : Tolerance := .real (Binary64.ofRatio false 1 2)

/-- Whether a share of errors is allowed. -/
def allows (t : Tolerance) (share : Binary64) : Bool :=
  !(t.place.lt share.place || t.place.same (.ofInt 0))

/-- The wording for a number that is no share. -/
def rangeMessage (t : Tolerance) : String :=
  "max_error_ratio must be within [0, 1], got " ++ t.toValue.display

end Tolerance

/-! ## Failures -/

namespace Analysis

/-- Why no analyzer takes a path. -/
inductive Unsupported
  /-- The analyzer of a language was asked for a file of another. -/
  | wrongLanguage (language : String)
  /-- No analyzer takes the suffix; those in `available` are taken. -/
  | noAnalyzer (shown : String) (available : List String)
  | noProjectAnalyzer
  deriving DecidableEq, Repr

/-- Why a source cannot be parsed. -/
inductive Problem
  | unterminated (what : Template.Unclosed) (line column : Int)
  | nothingRecognised
  /-- The share of the `whole` that errors cover is not allowed. -/
  | tooManyErrors (count : Nat) (share : Binary64) (whole : String)
  deriving DecidableEq, Repr

/-- **Why a file is not analysed.** -/
inductive Failure
  | notSupported (path : String) (cause : Unsupported)
  | unparsable (path : String) (problem : Problem)
  | grammarUnavailable (grammar : String) (problem : LoadProblem)
  /-- No parser has an answer for the source. -/
  | noParse (grammar : String)
  /-- A parse tree spans more than the source. -/
  | outside
  | unmatchable
  deriving DecidableEq, Repr

namespace Unsupported

/-- The wording of a cause. -/
def message (path : String) : Unsupported → String
  | .wrongLanguage language => language ++ " analyzer does not handle " ++ path
  | .noAnalyzer shown available =>
    "No analyzer supports '" ++ shown ++ "'. Available: " ++ (Value.texts available).shown
  | .noProjectAnalyzer => "No analyzer supports project: " ++ path

end Unsupported

namespace Problem

/-- The wording of a problem. -/
def text : Problem → String
  | .unterminated what line column =>
    "unterminated " ++ what.text ++ " at line " ++ toString line ++ ", column "
      ++ toString column
  | .nothingRecognised => "no recognizable syntax"
  | .tooManyErrors count share whole =>
    toString count ++ " syntax error(s) covering " ++ percent share ++ " of the " ++ whole

/-- The share of errors that is reported with a problem. -/
def share? : Problem → Option Binary64
  | .unterminated .. => none
  | .nothingRecognised => some (Binary64.ofInt 1)
  | .tooManyErrors _ share _ => some share

end Problem

namespace Failure

/-- **The wording of a failure.** -/
def message : Failure → String
  | .notSupported path cause => cause.message path
  | .unparsable path problem => "Failed to parse " ++ path ++ ": " ++ problem.text
  | .grammarUnavailable grammar problem => problem.message grammar
  | .noParse _ | .outside | .unmatchable => ""

/-- The failure that a fault of the scanner is. -/
def ofFault (path : String) (lines : LineIndex) : Template.Fault → Failure
  | .unterminated what offset =>
    let (line, column) := lines.position offset
    .unparsable path (.unterminated what line column)
  | .outside _ => .outside
  | .notBracket _ => .unmatchable

end Failure

end Analysis

end SyntaxForest
