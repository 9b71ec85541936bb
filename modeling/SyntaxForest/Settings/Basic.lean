import SyntaxForest.Analysis.Failure
import SyntaxForest.Batch.Options
import SyntaxForest.Number.Integer
import SyntaxForest.Settings.Environment
import SyntaxForest.Text.Case

/-!
# Settings

The settings of the program: how batches are run, which share of errors is
allowed, and which directories are left out. They are read from a dictionary
with a section for each. A number may be given as a text, since a variable's
value is one; everything else has to be what it is asked to be.
-/

namespace SyntaxForest

open Number

/-- **The settings.** -/
structure Settings where
  mode : Batch.Mode := .concurrent
  /-- How many files are analysed at a time; without it, one for each processor. -/
  limit : Option Int := none
  /-- The share of errors that is allowed. -/
  tolerance : Binary64 := Binary64.ofRatio false 1 2
  excluded : List String := Files.defaultExcluded
  /-- The file that the settings come from. -/
  source : Option Path := none
  deriving Repr

/-! ## Values that cannot be written -/

namespace Value

mutual

/-- **Whether a value holds an integer that is not written**, since it has too many digits. -/
def holdsLong : Value → Bool
  | .int i => 10 ^ digitLimit ≤ i.natAbs
  | .list items | .tuple items | .set items => holdsLongItem items
  | .dict entries => holdsLongEntry entries
  | _ => false

/-- Whether an item does. -/
def holdsLongItem : List Value → Bool
  | [] => false
  | v :: rest => v.holdsLong || holdsLongItem rest

/-- Whether an entry does, in its key or in what the key stands for. -/
def holdsLongEntry : List (Value × Value) → Bool
  | [] => false
  | (k, v) :: rest => k.holdsLong || v.holdsLong || holdsLongEntry rest

end

/-- The wording for a value that cannot be written. -/
def longMessage : String :=
  "Exceeds the limit (" ++ toString digitLimit
    ++ " digits) for integer string conversion; "
    ++ "use sys.set_int_max_str_digits() to increase the limit"

/-- A wording that shows a value, as far as the value can be written. -/
def worded (v : Value) (message : String) : String :=
  if v.holdsLong then longMessage else message

end Value

namespace Settings

/-- Why settings are refused. -/
inductive Fault
  | unsetVariable (name : String)
  | badMode (given : String)
  | notInteger (fault : IntegerFault)
  | badLimit (given : Value)
  | notNumber (given : Value)
  | outOfRange (given : Value)
  | notList (given : Value)
  /-- A value cannot be written as a text. -/
  | notWritten
  /-- The settings or one of their sections is no dictionary. -/
  | notSection

/-- The wording of a fault, as far as it has one. -/
def Fault.message : Fault → String
  | .unsetVariable name => "Environment variable not set: " ++ name
  | .badMode given =>
    "Invalid processing mode: " ++ given ++ ". Must be one of ('concurrent', 'sequential')"
  | .notInteger fault => fault.message
  | .badLimit given =>
    given.worded ("max_concurrency must be a positive integer, got " ++ given.shown)
  | .notNumber given => given.worded ("max_error_ratio must be a number, got " ++ given.shown)
  | .outOfRange given =>
    given.worded ("max_error_ratio must be between 0.0 and 1.0, got " ++ given.display)
  | .notList given => given.worded ("exclude_dirs must be a list, got " ++ given.shown)
  | .notWritten => Value.longMessage
  | .notSection => ""

/-! ## Numbers given as texts -/

/-- A text of digits as the integer it writes. -/
def asInteger (v : Value) : Except IntegerFault Value :=
  match v with
  | .text s =>
    let digits := Text.trim s
    if digits ≠ "" && digits.toList.all Text.isDigit then (readInteger 10 digits).map .int
    else .ok v
  | _ => .ok v

/-- A text that writes a real number as that number. -/
def asReal (v : Value) : Value :=
  match v with
  | .text s => ((readFloat? s).map Value.real).getD v
  | _ => v

/-- A value as a text. -/
def written (v : Value) : Except Fault String :=
  if v.holdsLong then .error .notWritten else .ok v.display

/-! ## Sections -/

/-- The entries of a section: none if it is missing or empty. -/
def entriesOf (name : String) (data : List (Value × Value)) :
    Except Fault (Option (List (Value × Value))) :=
  match Value.field name data with
  | none => .ok none
  | some v =>
    if !v.truthy then .ok none
    else
      match v with
      | .dict entries => .ok (some entries)
      | _ => .error .notSection

/-- The limit that a value gives. -/
def readLimit : Value → Except Fault (Option Int)
  | .null => .ok none
  | v@(.int i) => if i < 1 then .error (.badLimit v) else .ok (some i)
  | v => .error (.badLimit v)

/-- The tolerance that a value gives. -/
def readTolerance (v : Value) : Except Fault Binary64 :=
  let given? : Option Tolerance := match v with
    | .int i => some (.int i)
    | .real x => some (.real x)
    | _ => none
  match given? with
  | none => .error (.notNumber v)
  | some t =>
    if !t.inRange then .error (.outOfRange v)
    else
      match t with
      | .int i => .ok (Binary64.ofInt i)
      | .real x => .ok x

/-- The settings with those of the section for batches. -/
def withProcessing (s : Settings) (entries : List (Value × Value)) : Except Fault Settings := do
  let mode := Text.lower (← written ((Value.field "mode" entries).getD (.text s.mode.text)))
  let limit ← (asInteger ((Value.field "max_concurrency" entries).getD .null)).mapError .notInteger
  match Batch.Mode.ofText? mode with
  | none => .error (.badMode mode)
  | some m => return { s with mode := m, limit := ← readLimit limit }

/-- The settings with those of the section for errors. -/
def withParsing (s : Settings) (entries : List (Value × Value)) : Except Fault Settings := do
  let given := (Value.field "max_error_ratio" entries).getD (.real s.tolerance)
  return { s with tolerance := ← readTolerance (asReal given) }

/-- The settings with those of the section for finding sources. -/
def withDiscovery (s : Settings) (entries : List (Value × Value)) : Except Fault Settings :=
  match Value.field "exclude_dirs" entries with
  | none => .ok s
  | some (.list items) => return { s with excluded := ← items.mapM written }
  | some v => .error (.notList v)

/-- The settings with those of a section, if it is there. -/
def withSection (name : String) (read : Settings → List (Value × Value) → Except Fault Settings)
    (data : List (Value × Value)) (s : Settings) : Except Fault Settings := do
  match ← entriesOf name data with
  | none => return s
  | some entries => read s entries

/-- **The settings that a value gives**, with variables replaced. -/
def ofValue (env : Environment) (v : Value) : Except Fault Settings := do
  match ← (substitute env v).mapError .unsetVariable with
  | .dict data =>
    let s ← withSection "processing" withProcessing data {}
    let s ← withSection "parsing" withParsing data s
    withSection "discovery" withDiscovery data s
  | _ => .error .notSection

/-- **The choices for a batch** that settings make. -/
def options (processors : Nat) (s : Settings) : Batch.Options :=
  ⟨s.mode, s.limit.getD processors, s.excluded⟩

end Settings

end SyntaxForest
