import SyntaxForest.Calendar
import SyntaxForest.Text.Quoted

/-!
# Values

The data that settings, log records and reports are made of: scalars, lists and
dictionaries. A dictionary keeps the order in which its keys were first given,
and compares keys by value, numbers of all kinds with one another, so that `1`,
`1.0` and `true` are one key.
-/

namespace SyntaxForest

open Number

/-- **A value.** -/
inductive Value
  | null
  | bool (b : Bool)
  | int (i : Int)
  | real (x : Binary64)
  | text (s : String)
  | list (items : List Value)
  | tuple (items : List Value)
  | dict (entries : List (Value × Value))
  | set (items : List Value)
  | bytes (items : List UInt8)
  | day (d : Day)
  | moment (m : Moment)
  deriving Repr, Inhabited

namespace Value

/-- A dictionary with texts as keys. -/
def record (fields : List (String × Value)) : Value :=
  .dict (fields.map fun (k, v) => (.text k, v))

/-- A list of texts. -/
def texts (items : List String) : Value := .list (items.map .text)

/-- A text, or null. -/
def optionText : Option String → Value
  | some s => .text s
  | none => .null

/-! ## Kinds -/

/-- The name of a value's kind, as messages have it. -/
def kindName : Value → String
  | .null => "NoneType"
  | .bool _ => "bool"
  | .int _ => "int"
  | .real _ => "float"
  | .text _ => "str"
  | .list _ => "list"
  | .tuple _ => "tuple"
  | .dict _ => "dict"
  | .set _ => "set"
  | .bytes _ => "bytes"
  | .day _ => "date"
  | .moment _ => "datetime"

/-- The place of a number on the line; truth values count as zero and one. -/
def place? : Value → Option Place
  | .bool b => some (.ofInt (if b then 1 else 0))
  | .int i => some (.ofInt i)
  | .real x => some x.place
  | _ => none

/-- Whether a value counts as something: null, zero and whatever is empty do
not. -/
def truthy : Value → Bool
  | .null => false
  | .bool b => b
  | .int i => i != 0
  | .real x => !x.place.same (.ofInt 0)
  | .text s => s != ""
  | .list items | .tuple items | .set items => !items.isEmpty
  | .dict entries => !entries.isEmpty
  | .bytes items => !items.isEmpty
  | .day _ | .moment _ => true

/-! ## Equality -/

mutual

/-- **Equality of values**: numbers by their place on the line, lists item by
item, dictionaries as maps. A nan equals nothing. -/
def same : Value → Value → Bool
  | .null, .null => true
  | .text s, .text t => s == t
  | .bytes s, .bytes t => s == t
  | .day c, .day d => c == d
  | .moment m, .moment n => m == n
  | .list xs, .list ys => sameItems xs ys
  | .tuple xs, .tuple ys => sameItems xs ys
  | .set xs, .set ys => xs.length == ys.length && itemsWithin xs ys
  | .dict xs, .dict ys => xs.length == ys.length && entriesWithin xs ys
  | x, y =>
    match x.place?, y.place? with
    | some p, some q => p.same q
    | _, _ => false

/-- Equality of lists, item by item. -/
def sameItems : List Value → List Value → Bool
  | [], [] => true
  | x :: xs, y :: ys => same x y && sameItems xs ys
  | _, _ => false

/-- Whether each of the first items equals one of the second. -/
def itemsWithin : List Value → List Value → Bool
  | [], _ => true
  | x :: xs, ys => ys.any (fun y => same x y) && itemsWithin xs ys

/-- Whether each entry of the first dictionary has its equal in the second. -/
def entriesWithin : List (Value × Value) → List (Value × Value) → Bool
  | [], _ => true
  | (k, v) :: rest, ys =>
    ys.any (fun e => same k e.1 && same v e.2) && entriesWithin rest ys

end

/-- The value under a key, in a dictionary's entries. -/
def lookup (key : Value) (entries : List (Value × Value)) : Option Value :=
  (entries.find? fun e => e.1.same key).map (·.2)

/-- The value under a text key. -/
def field (key : String) (entries : List (Value × Value)) : Option Value :=
  lookup (.text key) entries

/-- **Entering a value under a key**: an equal key keeps its place and its own
form and gets the new value, a new one comes last. -/
def enter (entries : List (Value × Value)) (key value : Value) : List (Value × Value) :=
  match entries with
  | [] => [(key, value)]
  | (k, v) :: rest =>
    if k.same key then (k, value) :: rest else (k, v) :: enter rest key value

/-- The entries of a dictionary that is given pair by pair. -/
def enterAll (pairs : List (Value × Value)) : List (Value × Value) :=
  pairs.foldl (fun entries (k, v) => enter entries k v) []

/-! ## Display -/

/-- How a truth value is shown. -/
def boolText (b : Bool) : String := if b then "True" else "False"

/-- How a moment is shown inside another value: by its parts, with the seconds
and their fraction only as far as they are not zero. -/
def momentShown (m : Moment) : String :=
  let parts := [m.day.year, m.day.month, m.day.day, m.hour, m.minute]
    ++ (if m.micro ≠ 0 then [m.second, m.micro] else if m.second ≠ 0 then [m.second] else [])
  let zone := match m.offset with
    | none => ""
    | some o =>
      let delta :=
        if o < 0 then "days=-1, seconds=" ++ toString (o + 86400)
        else "seconds=" ++ toString o
      if o = 0 then ", tzinfo=datetime.timezone.utc"
      else ", tzinfo=datetime.timezone(datetime.timedelta(" ++ delta ++ "))"
  "datetime.datetime(" ++ Text.join ", " (parts.map toString) ++ zone ++ ")"

mutual

/-- **How a value is shown inside a message**: text between quotes, everything
else by its parts. -/
def shown : Value → String
  | .null => "None"
  | .bool b => boolText b
  | .int i => toString i
  | .real x => FloatLayout.shown.text x
  | .text s => Text.quoted s
  | .list items => "[" ++ shownItems items ++ "]"
  | .tuple [] => "()"
  | .tuple [x] => "(" ++ shown x ++ ",)"
  | .tuple items => "(" ++ shownItems items ++ ")"
  | .dict entries => "\x7b" ++ shownEntries entries ++ "\x7d"
  | .set [] => "set()"
  | .set items => "\x7b" ++ shownItems items ++ "\x7d"
  | .bytes items => Text.quotedBytes items
  | .day d =>
    "datetime.date(" ++ Text.join ", " ([d.year, d.month, d.day].map toString) ++ ")"
  | .moment m => momentShown m

/-- The items of a list, separated by commas. -/
def shownItems : List Value → String
  | [] => ""
  | [x] => shown x
  | x :: rest => shown x ++ ", " ++ shownItems rest

/-- The entries of a dictionary, separated by commas. -/
def shownEntries : List (Value × Value) → String
  | [] => ""
  | [(k, v)] => shown k ++ ": " ++ shown v
  | (k, v) :: rest => shown k ++ ": " ++ shown v ++ ", " ++ shownEntries rest

end

/-- **A value as text**: a text stands for itself, dates and moments are written
as such, everything else as it is shown. -/
def display : Value → String
  | .text s => s
  | .day d => d.text
  | .moment m => m.text " "
  | v => v.shown

end Value

end SyntaxForest
