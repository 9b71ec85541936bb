import SyntaxForest.Files.Discovery
import SyntaxForest.Schedule

/-!
# How batches are run

The choices for a batch of files: one file after another or several at a time,
how many at most, and which directories sources are not looked for in.
-/

namespace SyntaxForest.Batch

/-- **How the files of a batch are run.** -/
inductive Mode
  | sequential
  | concurrent
  deriving DecidableEq, Repr

namespace Mode

/-- The name of a mode. -/
def text : Mode → String
  | sequential => "sequential"
  | concurrent => "concurrent"

/-- The mode of a name. -/
def ofText? (s : String) : Option Mode :=
  if s = "sequential" then some .sequential
  else if s = "concurrent" then some .concurrent
  else none

end Mode

/-- **The choices for a batch.** -/
structure Options where
  mode : Mode
  /-- How many files are analysed at a time, at most. -/
  limit : Int
  excluded : List String
  deriving DecidableEq, Repr

namespace Options

/-- Why choices are refused. -/
inductive Fault
  | badMode (given : Value)
  | noRoom (limit : Int)

/-- The wording of a fault. -/
def Fault.message : Fault → String
  | .badMode given => given.shown ++ " is not a valid ProcessingMode"
  | .noRoom limit => Schedule.noRoomMessage limit

/-- The mode that a value names; without one, several files are run at a time. -/
def readMode : Option Value → Except Fault Mode
  | none => .ok .concurrent
  | some (.text s) =>
    match Mode.ofText? s with
    | some m => .ok m
    | none => .error (.badMode (.text s))
  | some v => .error (.badMode v)

/-- **Choices as they are given.** Without a limit there is one file for each
processor. -/
def make (processors : Nat) (mode : Option Value) (limit : Option Int)
    (excluded : Option (List String)) : Except Fault Options := do
  let mode ← readMode mode
  let limit := limit.getD processors
  if limit < 1 then .error (.noRoom limit)
  else .ok ⟨mode, limit, excluded.getD Files.defaultExcluded⟩

end Options

end SyntaxForest.Batch
