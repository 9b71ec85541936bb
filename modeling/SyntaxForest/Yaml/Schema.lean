import SyntaxForest.Calendar
import SyntaxForest.Text.Case
import SyntaxForest.Value
import SyntaxForest.Yaml.Fault

/-!
# What plain texts mean

A plain text without a tag is null, a truth value, a number, a day or a moment
if it is written like one, and else just a text. Integers may be binary, octal,
hexadecimal or in base sixty, and have underscores among their digits; reals
have a point. Reading a value of a kind is more lenient than finding the kind,
because a tag can ask for it.
-/

namespace SyntaxForest.Yaml

open Number Text

/-! ## Tags -/

/-- The address in front of the names of standard tags. -/
def standard : String := "tag:yaml.org,2002:"

/-- **The kinds of values that tags name.** -/
inductive Kind
  | null
  | bool
  | int
  | real
  | text
  | bytes
  | moment
  | list
  | dict
  | set
  | pairs
  /-- The key under which other dictionaries are merged. -/
  | merge
  /-- The key under which a dictionary stands for one value. -/
  | default
  | unknown
  deriving DecidableEq, Repr

/-- The kind that a tag names. -/
def Kind.ofTag (tag : String) : Kind :=
  let names := [("null", Kind.null), ("bool", .bool), ("int", .int), ("float", .real),
    ("str", .text), ("binary", .bytes), ("timestamp", .moment), ("seq", .list), ("map", .dict),
    ("set", .set), ("omap", .pairs), ("pairs", .pairs), ("merge", .merge),
    ("value", .default)]
  match dropFront? standard.toList tag.toList with
  | some name => (names.lookup (String.ofList name)).getD .unknown
  | none => .unknown

/-! ## Shapes -/

/-- A word in small letters, with a capital, or in capitals. -/
def isWord (words : List String) (s : String) : Bool :=
  words.any fun w => s == w || s == w.capitalize || s == upper w

/-- A digit or an underscore. -/
def isDigitish (c : Char) : Bool := c.isDigit || c == '_'

/-- A digit, then digits and underscores. -/
def isDecimal : List Char → Bool
  | [] => false
  | c :: rest => c.isDigit && rest.all isDigitish

/-- Part of a number in base sixty: one digit, or two below sixty. -/
def isSixtieth : List Char → Bool
  | [c] => c.isDigit
  | [c, d] => '0' ≤ c && c ≤ '5' && d.isDigit
  | _ => false

/-- The parts of a text between colons. -/
def colonParts (cs : List Char) : List (List Char) :=
  (split ":" (String.ofList cs)).map String.toList

/-- Whether an unsigned text is an integer. -/
def isInteger (cs : List Char) : Bool :=
  let based (p : Char → Bool) (rest : List Char) := !rest.isEmpty && rest.all (fun c => c == '_' || p c)
  match cs with
  | ['0'] => true
  | '0' :: 'b' :: rest => based (fun c => c == '0' || c == '1') rest
  | '0' :: 'x' :: rest =>
    based (fun c => c.isDigit || ('a' ≤ c && c ≤ 'f') || ('A' ≤ c && c ≤ 'F')) rest
  | '0' :: rest => based (fun c => '0' ≤ c && c ≤ '7') rest
  | _ =>
    match colonParts cs with
    | [] => false
    | whole :: sixtieths => isDecimal whole && sixtieths.all isSixtieth

/-- Whether a text is the exponent of a real number, or nothing. -/
def isExponent : List Char → Bool
  | [] => true
  | e :: sign :: digits =>
    (e == 'e' || e == 'E') && (sign == '+' || sign == '-') && !digits.isEmpty
      && digits.all Char.isDigit
  | _ => false

/-- Whether an unsigned text is a real number; only one without a sign may begin
with its point. -/
def isReal (signed : Bool) (cs : List Char) : Bool :=
  if ['.', 'i', 'n', 'f'] = cs || ['.', 'I', 'n', 'f'] = cs || ['.', 'I', 'N', 'F'] = cs then true
  else if !signed && (".nan".toList = cs || ".NaN".toList = cs || ".NAN".toList = cs) then true
  else
    match cs.takeWhile (· != '.'), cs.dropWhile (· != '.') with
    | _, [] => false
    | [], _ :: rest =>
      !signed && (rest.head?.any Char.isDigit) && isExponent (rest.dropWhile isDigitish)
    | whole, _ :: rest =>
      match colonParts whole with
      | [] => false
      | [w] => isDecimal w && isExponent (rest.dropWhile isDigitish)
      | w :: sixtieths => isDecimal w && sixtieths.all isSixtieth && rest.all isDigitish

/-! ## Moments -/

/-- The parts of a written moment. -/
structure WrittenMoment where
  year : Nat
  month : Nat
  day : Nat
  /-- Whether the month and the day have two digits each. -/
  isFull : Bool
  /-- Hour, minute and second. -/
  clock : Option (Nat × Nat × Nat)
  fraction : List Char
  offset : Option Int

/-- A number of one or two digits, and what follows. -/
def shortNumber? : List Char → Option (Nat × Bool × List Char)
  | a :: b :: rest =>
    if a.isDigit && b.isDigit then some (ofDigits [a.toNat - 48, b.toNat - 48], true, rest)
    else if a.isDigit then some (a.toNat - 48, false, b :: rest)
    else none
  | [a] => if a.isDigit then some (a.toNat - 48, false, []) else none
  | [] => none

/-- A number of exactly two digits, and what follows. -/
def fullNumber? (cs : List Char) : Option (Nat × List Char) :=
  match shortNumber? cs with
  | some (n, true, rest) => some (n, rest)
  | _ => none

/-- What follows a given character. -/
def behind? (c : Char) : List Char → Option (List Char)
  | d :: rest => if c = d then some rest else none
  | [] => none

/-- The zone at the end of a moment: none, universal time, or an offset. -/
def zone? (cs : List Char) : Option (Option Int) :=
  if cs.isEmpty then some none
  else
    match cs.dropWhile (fun c => c == ' ' || c == '\t') with
    | ['Z'] => some (some 0)
    | sign :: rest =>
      if sign = '+' || sign = '-' then
        match shortNumber? rest with
        | none => none
        | some (hours, _, rest) =>
          let minutes? : Option Nat :=
            if rest.isEmpty then some 0
            else
              match (behind? ':' rest).bind fullNumber? with
              | some (m, []) => some m
              | _ => none
          minutes?.map fun minutes =>
            let seconds : Int := hours * 3600 + minutes * 60
            some (if sign = '-' then -seconds else seconds)
      else none
    | [] => none

/-- The time of day of a moment with its zone. -/
def clock? (cs : List Char) : Option ((Nat × Nat × Nat) × List Char × Option Int) := do
  let cs ← match cs with
    | 'T' :: rest | 't' :: rest => some rest
    | c :: rest =>
      if c = ' ' || c = '\t' then some (rest.dropWhile fun c => c == ' ' || c == '\t') else none
    | [] => none
  let (hour, _, cs) ← shortNumber? cs
  let (minute, cs) ← fullNumber? (← behind? ':' cs)
  let (second, cs) ← fullNumber? (← behind? ':' cs)
  let (fraction, cs) := match cs with
    | '.' :: rest => (rest.takeWhile Char.isDigit, rest.dropWhile Char.isDigit)
    | _ => ([], cs)
  return ((hour, minute, second), fraction, ← zone? cs)

/-- **The parts of a moment**, if a text is written like one. -/
def WrittenMoment.ofText? (cs : List Char) : Option WrittenMoment := do
  let year := cs.take 4
  if year.length < 4 || !year.all Char.isDigit then none
  let (month, twoM, rest) ← shortNumber? (← behind? '-' (cs.drop 4))
  let (day, twoD, rest) ← shortNumber? (← behind? '-' rest)
  let date : WrittenMoment :=
    ⟨ofDigits (year.map fun c => c.toNat - 48), month, day, twoM && twoD, none, [], none⟩
  if rest.isEmpty then return date
  let (clock, fraction, offset) ← clock? rest
  return { date with clock := some clock, fraction, offset }

/-! ## Kinds -/

/-- **The kind of a plain text.** -/
def Kind.ofText (s : String) : Kind :=
  let cs := s.toList
  let (signed, body) := match cs with
    | '+' :: rest | '-' :: rest => (true, rest)
    | _ => (false, cs)
  if s = "" || s = "~" || isWord ["null"] s then .null
  else if isWord ["yes", "no", "true", "false", "on", "off"] s then .bool
  else if isReal signed body then .real
  else if isInteger body then .int
  else if s = "<<" then .merge
  else if (WrittenMoment.ofText? cs).any fun m => m.isFull || m.clock.isSome then .moment
  else if s = "=" then .default
  else .text

/-! ## Reading -/

/-- A text without underscores, its sign taken off. -/
def unsigned (s : String) : Except Fault (Bool × List Char) :=
  match s.toList.filter (· != '_') with
  | [] => .error .emptyNumber
  | cs => .ok (takeSign cs)

/-- A number in base sixty from its parts. -/
def inSixties (parts : List Int) : Int := parts.foldl (fun n p => 60 * n + p) 0

/-- **The integer that a text stands for.** -/
def integer (s : String) : Except Fault Int := do
  let (negative, cs) ← unsigned s
  let based (base : Nat) (cs : List Char) : Except Fault Int :=
    (readInteger base (String.ofList cs)).mapError .notInteger
  let n ← match cs with
    | ['0'] => pure 0
    | '0' :: 'b' :: digits => based 2 digits
    | '0' :: 'x' :: digits => based 16 digits
    | '0' :: _ => based 8 cs
    | [] => throw .emptyNumber
    | _ => if cs.contains ':' then inSixties <$> (colonParts cs).mapM (based 10) else based 10 cs
  return if negative then -n else n

/-- The real number of a text. -/
def readReal (s : String) : Except Fault Binary64 :=
  match readFloat? s with
  | some x => .ok x
  | none => .error (.notReal s)

/-- A number in base sixty from its parts, the last one first, with each product
and each sum rounded. -/
def realInSixties (parts : List Binary64) : Binary64 :=
  let sum := parts.foldl (fun (sum, base) p => (sum + Float.ofBits p.bits * base, base * 60))
    ((0 : Float), (1 : Float))
  ⟨sum.1.toBits⟩

/-- A number with its sign turned. -/
def negated (x : Binary64) : Binary64 := ⟨x.bits ^^^ 0x8000000000000000⟩

/-- **The real number that a text stands for.** -/
def real (s : String) : Except Fault Binary64 := do
  let (negative, cs) ← unsigned (lower s)
  let x ←
    if cs = ".inf".toList then pure (Binary64.infinity false)
    else if cs = ".nan".toList then return Binary64.nan false
    else if cs.contains ':' then
      realInSixties <$> ((colonParts cs).reverse.mapM fun p => readReal (String.ofList p))
    else readReal (String.ofList cs)
  return if negative then negated x else x

/-- **The truth value that a text stands for.** -/
def truth (s : String) : Except Fault Bool :=
  let s := lower s
  if ["yes", "true", "on"].contains s then .ok true
  else if ["no", "false", "off"].contains s then .ok false
  else .error .notTruth

/-- The first part of a day that is out of bounds. -/
def dayFault? (d : Day) : Option Part :=
  if d.year = 0 then some (.year d.year)
  else if d.month = 0 || 12 < d.month then some .month
  else if d.day = 0 || Day.monthLength d.year d.month < d.day then some .day
  else none

/-- The first part of a time of day that is out of bounds. -/
def clockFault? (hour minute second : Nat) : Option Part :=
  if 23 < hour then some .hour
  else if 59 < minute then some .minute
  else if 59 < second then some .second
  else none

/-- The value of a written moment: a day if it has no time. -/
def WrittenMoment.value (m : WrittenMoment) : Except Fault Value :=
  let d : Day := ⟨m.year, m.month, m.day⟩
  match m.clock with
  | none =>
    match dayFault? d with
    | some p => .error (.outOfBounds p)
    | none => .ok (.day d)
  | some (hour, minute, second) =>
    let offsetFault := (m.offset.filter fun o => 86400 ≤ o.natAbs).map Part.offset
    match offsetFault <|> dayFault? d <|> clockFault? hour minute second with
    | some p => .error (.outOfBounds p)
    | none =>
      let micro := ofDigits (((m.fraction ++ List.replicate 6 '0').take 6).map (·.toNat - 48))
      .ok (.moment ⟨d, hour, minute, second, micro, m.offset⟩)

/-- **The day or moment that a text stands for.** -/
def moment (s : String) : Except Fault Value :=
  match WrittenMoment.ofText? s.toList with
  | some m => m.value
  | none => .error .notMoment

end SyntaxForest.Yaml
