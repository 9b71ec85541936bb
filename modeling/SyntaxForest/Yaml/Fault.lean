import SyntaxForest.Number.Integer
import SyntaxForest.Yaml.Cursor

/-!
# Settings texts that cannot be read

Most faults are one: the text is no document. The others come from values that
are written as something they cannot be: numbers without digits, days that no
calendar has.
-/

namespace SyntaxForest.Yaml

/-- A part of a moment that has to be within bounds. -/
inductive Part
  | year (given : Nat)
  | month
  | day
  | hour
  | minute
  | second
  /-- An offset from universal time, in seconds. -/
  | offset (given : Int)
  deriving DecidableEq, Repr

/-- A span of time, as messages show it. -/
def spanShown (seconds : Int) : String :=
  let days := "days=" ++ toString (seconds / 86400)
  let rest := seconds % 86400
  "datetime.timedelta(" ++ (if rest = 0 then days else days ++ ", seconds=" ++ toString rest)
    ++ ")"

/-- The wording for a part out of bounds. -/
def Part.message : Part → String
  | .year given => "year " ++ toString given ++ " is out of range"
  | .month => "month must be in 1..12"
  | .day => "day is out of range for month"
  | .hour => "hour must be in 0..23"
  | .minute => "minute must be in 0..59"
  | .second => "second must be in 0..59"
  | .offset given =>
    "offset must be a timedelta strictly between -timedelta(hours=24) and "
      ++ "timedelta(hours=24), not " ++ spanShown given ++ "."

/-- **Why a text cannot be read.** -/
inductive Fault
  /-- The text is no document, or a value does not fit its tag. -/
  | malformed
  | notInteger (fault : Number.IntegerFault)
  /-- A text is no real number. -/
  | notReal (text : String)
  /-- A number without a character is left. -/
  | emptyNumber
  | notTruth
  | notMoment
  | outOfBounds (part : Part)
  /-- An escape gives the code of no character. -/
  | noCharacter
  /-- An escape gives a code that is no code at all. -/
  | noCode
  /-- A value holds itself. -/
  | endless
  deriving DecidableEq, Repr

/-- The wording of a fault, as far as it has one. -/
def Fault.message : Fault → String
  | .notInteger fault => fault.message
  | .notReal text => "could not convert string to float: " ++ Text.quoted text
  | .outOfBounds part => part.message
  | .noCharacter => "chr() arg not in range(0x110000)"
  | _ => ""

end SyntaxForest.Yaml
