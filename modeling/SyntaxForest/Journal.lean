import SyntaxForest.Value.Json

/-!
# The journal

What happens while sources are analyzed is told in entries, each with a rank
and the part of the program that speaks. A journal decides which entries it
keeps – those of its own family whose rank reaches its threshold – and how each
is written: for a person, with the time of day, or as one JSON object a line.

Entries are data until they are written, so that what a run says can be
compared with what it did.
-/

namespace SyntaxForest.Journal

/-! ## Entries -/

/-- The name of a rank. Ranks between the known ones are named by number. -/
def rankName (rank : Int) : String :=
  if rank = 0 then "NOTSET"
  else if rank = 10 then "DEBUG"
  else if rank = 20 then "INFO"
  else if rank = 30 then "WARNING"
  else if rank = 40 then "ERROR"
  else if rank = 50 then "CRITICAL"
  else "Level " ++ toString rank

/-- What an entry reports besides its message: a kind of trouble and its text. -/
structure Cause where
  kind : String
  text : String
  deriving Repr, DecidableEq

/-- A cause on a line of its own; one without text is its kind alone. -/
def Cause.line (c : Cause) : String := if c.text = "" then c.kind else c.kind ++ ": " ++ c.text

/-- **An entry** of the journal. -/
structure Entry where
  rank : Int
  /-- The part of the program that speaks, a dotted name. -/
  speaker : String
  message : String
  /-- Named data, written by the JSON style only. -/
  details : List (Value × Value) := []
  cause : Option Cause := none
  deriving Repr

namespace Entry

def debug (speaker message : String) : Entry := { rank := 10, speaker, message }
def info (speaker message : String) : Entry := { rank := 20, speaker, message }
def warning (speaker message : String) : Entry := { rank := 30, speaker, message }
def error (speaker message : String) : Entry := { rank := 40, speaker, message }

end Entry

/-! ## Styles -/

/-- **How entries are written.** -/
inductive Style
  /-- Rank and message. -/
  | human
  /-- Rank, time of day and message. -/
  | verbose
  /-- One object a line. -/
  | json
  deriving DecidableEq, Repr

/-- The terminal code that ends a colour. -/
def plainCode : String := "\x1B[0m"

/-- The terminal code of a rank's colour; unnamed ranks have none of their own. -/
def colourCode (rank : Int) : String :=
  if rank = 10 then "\x1B[90m"
  else if rank = 20 then "\x1B[32m"
  else if rank = 30 then "\x1B[33m"
  else if rank = 40 ∨ rank = 50 then "\x1B[31m"
  else plainCode

/-- A rank in brackets, coloured for a terminal. -/
def rankTag (coloured : Bool) (rank : Int) : String :=
  let tag := "[" ++ rankName rank ++ "]"
  if coloured then colourCode rank ++ tag ++ plainCode else tag

namespace Entry

/-- The object that the JSON style writes: details replace a field of the same
name, and follow the fields otherwise. The cause is left out. -/
def toValue (now : Moment) (e : Entry) : Value :=
  let fields := [(.text "level", .text (rankName e.rank)), (.text "ts", .text now.stamp),
    (.text "logger", .text e.speaker), (.text "msg", .text e.message)]
  .dict (e.details.foldl (fun fields (k, v) => Value.enter fields k v) fields)

/-- **An entry as a line**, without the line's end. Only details that JSON
cannot hold make it fail. -/
def line (now : Moment) (style : Style) (coloured : Bool) (e : Entry) :
    Except Value.JsonFault String :=
  let cause := match e.cause with
    | some c => "\n" ++ c.line
    | none => ""
  match style with
  | .human => .ok (rankTag coloured e.rank ++ " " ++ e.message ++ cause)
  | .verbose =>
    .ok (rankTag coloured e.rank ++ "[" ++ now.clock ++ "] " ++ e.message ++ cause)
  | .json => (e.toValue now).compact

end Entry

/-! ## Journals -/

/-- The family of speakers that a journal listens to. -/
def family : String := "polyast"

/-- Whether a speaker belongs to the family. -/
def ofFamily (speaker : String) : Bool :=
  speaker == family || speaker.startsWith (family ++ ".")

end Journal

/-- **A journal**: how entries are written, and from which rank on. -/
structure Journal where
  style : Journal.Style := .human
  /-- The least rank that is kept; zero leaves the choice to the default. -/
  level : Int := 20
  deriving DecidableEq, Repr

namespace Journal

/-- The rank from which entries are kept: warnings, when no level is set. -/
def threshold (j : Journal) : Int := if j.level = 0 then 30 else j.level

/-- **Whether an entry is kept.** Entries of no rank never are. -/
def keeps (j : Journal) (e : Entry) : Bool :=
  ofFamily e.speaker && 0 < e.rank && j.threshold ≤ e.rank

/-- **What a journal writes** for some entries, one line each. An entry that
cannot be written is passed over. -/
def write (now : Moment) (coloured : Bool) (j : Journal) (entries : List Entry) : String :=
  String.join <| (entries.filter j.keeps).map fun e =>
    match e.line now j.style coloured with
    | .ok line => line ++ "\n"
    | .error _ => ""

/-- **The journal that command line flags ask for.** The machine's style wins
over the verbose one, and being quiet wins over being verbose about the level. -/
def ofFlags (verbose quiet machine : Bool) : Journal :=
  { style := if machine then .json else if verbose then .verbose else .human
    level := if quiet then 30 else if verbose then 10 else 20 }

end Journal

end SyntaxForest
