import SyntaxForest.Number.Layout
import SyntaxForest.Text.Split

/-!
# Dates and moments

Reports are stamped with the moment of their making, and settings may hold
dates. A moment may know its offset from universal time; one that does not is
taken to be universal time when a report is stamped with it.
-/

namespace SyntaxForest

open Number (padZeros)

/-- **A day** of the calendar. -/
structure Day where
  year : Nat
  month : Nat
  day : Nat
  deriving DecidableEq, Repr, Inhabited

/-- **A moment**: a day, a time of day, and the offset from universal time in
seconds if it is known. -/
structure Moment where
  day : Day
  hour : Nat
  minute : Nat
  second : Nat
  micro : Nat
  offset : Option Int
  deriving DecidableEq, Repr, Inhabited

namespace Day

/-- Whether a year has a leap day. -/
def isLeap (year : Nat) : Bool := year % 4 == 0 && (year % 100 != 0 || year % 400 == 0)

/-- The number of days in a month. -/
def monthLength (year month : Nat) : Nat :=
  if month = 2 then if isLeap year then 29 else 28
  else if month ∈ [4, 6, 9, 11] then 30 else 31

/-- Whether the calendar has this day. -/
def valid (d : Day) : Bool :=
  1 ≤ d.year && d.year ≤ 9999 && 1 ≤ d.month && d.month ≤ 12
    && 1 ≤ d.day && d.day ≤ monthLength d.year d.month

/-- A day as `2024-01-02`. -/
def text (d : Day) : String :=
  padZeros 4 (toString d.year) ++ "-" ++ padZeros 2 (toString d.month) ++ "-"
    ++ padZeros 2 (toString d.day)

end Day

namespace Moment

/-- Whether the time of day and the offset are in range, and the day exists. -/
def valid (m : Moment) : Bool :=
  m.day.valid && m.hour < 24 && m.minute < 60 && m.second < 60 && m.micro < 1000000
    && match m.offset with
      | none => true
      | some o => o.natAbs < 86400

/-- An offset as `+01:30`, with seconds only if there are some. -/
def offsetText (o : Int) : String :=
  let n := o.natAbs
  (if o < 0 then "-" else "+") ++ padZeros 2 (toString (n / 3600)) ++ ":"
    ++ padZeros 2 (toString (n / 60 % 60))
    ++ (if n % 60 = 0 then "" else ":" ++ padZeros 2 (toString (n % 60)))

/-- The time of day as `03:04:05`. -/
def clock (m : Moment) : String :=
  padZeros 2 (toString m.hour) ++ ":" ++ padZeros 2 (toString m.minute) ++ ":"
    ++ padZeros 2 (toString m.second)

/-- **A moment as text**, with `sep` between day and time: a fraction of the
second is written with six digits, and only if it is not nothing. -/
def text (sep : String) (m : Moment) : String :=
  m.day.text ++ sep ++ m.clock
    ++ (if m.micro = 0 then "" else "." ++ padZeros 6 (toString m.micro))
    ++ (match m.offset with | none => "" | some o => offsetText o)

/-- How a moment is written in reports. -/
def stamp (m : Moment) : String := m.text "T"

/-- A moment whose offset is unknown, taken as universal time. -/
def inUniversalTime (m : Moment) : Moment := { m with offset := some (m.offset.getD 0) }

/-! ## Reading -/

/-- The number written by exactly `n` digits at the front, and the rest. -/
def takeNumber? (n : Nat) (cs : List Char) : Option (Nat × List Char) :=
  let digits := cs.take n
  if digits.length = n ∧ digits.all Char.isDigit then
    some (digits.foldl (fun v c => 10 * v + (c.toNat - 48)) 0, cs.drop n)
  else none

/-- A day as `2024-01-02` or `20240102`, and the rest. -/
def takeDay? (cs : List Char) : Option (Day × List Char) := do
  let (year, rest) ← takeNumber? 4 cs
  match rest with
  | '-' :: rest =>
    let (month, rest) ← takeNumber? 2 rest
    match rest with
    | '-' :: rest =>
      let (day, rest) ← takeNumber? 2 rest
      return (⟨year, month, day⟩, rest)
    | _ => none
  | _ =>
    let (month, rest) ← takeNumber? 2 rest
    let (day, rest) ← takeNumber? 2 rest
    return (⟨year, month, day⟩, rest)

/-- The digits of a fraction, as millionths; digits beyond the sixth are
dropped. -/
def takeMicro (cs : List Char) : Nat × List Char :=
  let digits := cs.takeWhile Char.isDigit
  let six := digits.take 6 ++ List.replicate (6 - digits.length) '0'
  (six.foldl (fun v c => 10 * v + (c.toNat - 48)) 0, cs.dropWhile Char.isDigit)

/-- Hours, then minutes and seconds if given, with colons between them or
without, and a fraction: the four numbers and the rest. -/
def takeClock? (cs : List Char) : Option ((Nat × Nat × Nat × Nat) × List Char) := do
  let (hour, rest) ← takeNumber? 2 cs
  let colon := rest.head? == some ':'
  let step (cs : List Char) : Option (Nat × List Char) :=
    if colon then (match cs with | ':' :: r => takeNumber? 2 r | _ => none) else takeNumber? 2 cs
  match step rest with
  | none => if colon then none else return ((hour, 0, 0, 0), rest)
  | some (minute, rest) =>
    match step rest with
    | none => return ((hour, minute, 0, 0), rest)
    | some (second, rest) =>
      match rest with
      | c :: more =>
        if (c = '.' ∨ c = ',') ∧ (more.head?.any Char.isDigit) then
          let (micro, rest) := takeMicro more
          return ((hour, minute, second, micro), rest)
        else return ((hour, minute, second, 0), rest)
      | [] => return ((hour, minute, second, 0), [])

/-- An offset: nothing, `Z`, or a sign and a time of day. -/
def offset? : List Char → Option (Option Int)
  | [] => some none
  | ['Z'] => some (some 0)
  | c :: rest =>
    if c = '+' ∨ c = '-' then
      match takeClock? rest with
      | some ((h, m, s, _), []) =>
        let n : Int := (h * 3600 + m * 60 + s : Nat)
        some (some (if c = '-' then -n else n))
      | _ => none
    else none

/-- **The moment that a text writes** in the form that `stamp` has. The time may
be missing, and any one character may stand between day and time. -/
def ofText? (s : String) : Option Moment := do
  let (day, rest) ← takeDay? s.toList
  let m ← match rest with
    | [] => some ⟨day, 0, 0, 0, 0, none⟩
    | _ :: rest => do
      let ((hour, minute, second, micro), rest) ← takeClock? rest
      let offset ← offset? rest
      some ⟨day, hour, minute, second, micro, offset⟩
  if m.valid then some m else none

end Moment

end SyntaxForest
