import SyntaxForest.Template.Scanner

/-!
# Scanning on a bounded stack

A scan calls itself for what is nested. The code of a construct is split in a call that is made
while the construct is read, a construct among its statements is read in a call that is made while
the code is split, and a run of markup is scanned in a call that is made while the markup around it
is. Each call takes a frame, and a stack has room for so many frames only. `scanWithin` is the scan
that carries along how much room is left, and it has one more way to stop.

Only these calls are counted. What the scanner calls besides, to find a bracket or the end of a
word, takes a few frames at most, whatever the source is, and room for that is kept apart.
-/

namespace SyntaxForest.Template

open Lexical

/-- **Why a scan stops early** on a bounded stack. -/
inductive Halt
  | fault (f : Fault)
  /-- A call finds no room on the stack. -/
  | outOfStack
  deriving DecidableEq, Repr

/-- **Work on a bounded stack**, by the number of frames that there is room for. -/
abbrev Bounded := ReaderT Nat (Except Halt)

/-- Work without nested calls takes no room. -/
instance : MonadLift Scan Bounded := ⟨fun x _ => x.mapError .fault⟩

/-- **A call** that takes some frames, and leaves the rest to what is called. -/
def call {α : Type} (frames : Nat) (x : Bounded α) : Bounded α := fun room =>
  if room < frames then .error .outOfStack else x (room - frames)

mutual

/-- **The markup runs of a stretch of code**, on a bounded stack. -/
def splitWithin (src : Bytes) (cursor stop : Nat) (statement : Bool) : Bounded (List Range) :=
  if hc : cursor < stop then do
    let b ← byteAt src cursor
    let following ← byteAfter src cursor stop
    if Bytes.isBlank b then splitWithin src (cursor + 1) stop statement
    else if b == 0x2F && following == 0x2F then
      let ⟨n, _⟩ := pastOrStop src [0x0A] (cursor + 1) stop (Nat.le_refl _) hc
      splitWithin src n stop statement
    else if b == 0x2F && following == 0x2A then
      let ⟨n, _⟩ := pastOrStop src [0x2A, 0x2F] (cursor + 2) stop
        (Nat.le_succ (cursor + 1)) hc
      splitWithin src n stop statement
    else if statement && b == 0x3C && startsTag following then
      let ⟨n, _⟩ ← elementEnd src cursor stop
      return ⟨cursor, n⟩ :: (← splitWithin src n stop statement)
    else if statement && b == 0x40 && following == 0x3A then
      let ⟨n, _⟩ := upTo src [0x0A] (cursor + 1) stop (Nat.le_refl _) hc
      return ⟨cursor, n⟩ :: (← splitWithin src n stop statement)
    else
      let (segment, ⟨next, _⟩) ← show Bounded (Option Segment × AtLeast (cursor + 1)) from
        if statement && b == 0x40 && following != 0x22 then
          call 1 (transitionWithin src cursor stop)
        else return (none, .here (cursor + 1))
      if segment.isSome then
        return ⟨cursor, next⟩ :: (← splitWithin src next stop statement)
      else
        let ⟨n, _⟩ ← codeStep src b following cursor stop
        splitWithin src n stop (endsStatement b)
  else return []
termination_by 2 * (stop - cursor) + 1

/-- **The construct whose `@` stands at `mark`**, on a bounded stack. The code of a block is split
in a call; that of a control statement two calls further down, where its bodies are gone
through. -/
def transitionWithin (src : Bytes) (mark stop : Nat) :
    Bounded (Option Segment × AtLeast (mark + 1)) := do
  if ← isEmbedded src mark then return (none, .here (mark + 1))
  else if hs : mark + 1 < stop then
    let b ← byteAt src (mark + 1)
    if b == 0x40 then return (none, ⟨mark + 2, by omega⟩)
    else if b == 0x2A then
      match h : src.find [0x2A, 0x40] (mark + 2) stop with
      | none => liftM (m := Scan) (throw (Fault.unterminated .comment mark))
      | some close =>
        have := Bytes.find_bounds h
        let text := Text.trim (textOf src (mark + 2) close)
        return (some (.simple (.comment text) mark (close + 2)), ⟨close + 2, by omega⟩)
    else if b == 0x7B then
      let ⟨close, h₁, h₂⟩ ← closing src (mark + 1) stop
      let markup ← call 1 (splitWithin src (mark + 2) close true)
      let segment : Segment :=
        { Segment.simple (.codeBlock none) mark (close + 1) with
          content := some ⟨mark + 2, close⟩
          markup }
      return (some segment, ⟨close + 1, by omega⟩)
    else if b == 0x28 then
      let ⟨close, h₁, _⟩ ← closing src (mark + 1) stop
      let expression := Text.trim (textOf src (mark + 2) close)
      return (some (.simple (.explicitExpression expression) mark (close + 1)),
        ⟨close + 1, by omega⟩)
    else
      let (word, ⟨wordEnd, hw⟩) ← wordAt src (mark + 1) stop
      if word = "" then return (none, .here (mark + 1))
      else
        match ← readMembers src mark word wordEnd stop hw with
        | some (segment, n) => return (some segment, n)
        | none =>
          match ← readControl src mark word wordEnd stop hw with
          | some ⟨construct, bodies, finish⟩ =>
            let runs ← bodies.mapM fun ⟨r, _⟩ =>
              if word = "section" then return [r]
              else call 3 (splitWithin src r.start r.stop true)
            let segment : Segment :=
              { Segment.simple construct mark finish with
                bodies := bodies.map fun body => body.1
                markup := runs.flatten }
            return (some segment, finish)
          | none =>
            if directives.contains word then
              readDirective src mark word wordEnd stop hw (by omega)
            else readImplicit src mark word wordEnd stop hw
  else return (none, .here (mark + 1))
termination_by 2 * (stop - mark)

end

/-- **The constructs of a stretch of markup**, on a bounded stack. -/
def segmentsWithin (src : Bytes) (cursor stop : Nat) : Bounded (List Segment) :=
  if cursor < stop then
    match h : src.find [0x40] cursor stop with
    | some mark => do
      have := Bytes.find_bounds h
      let (segment?, ⟨next, _⟩) ← call 1 (transitionWithin src mark stop)
      match segment? with
      | none => segmentsWithin src next stop
      | some segment =>
        let children ← segment.markup.mapM fun run =>
          if mark < run.start ∧ run.stop ≤ stop then
            call 1 (segmentsWithin src run.start run.stop)
          else return []
        return { segment with children := children.flatten } :: (← segmentsWithin src next stop)
    | none => return []
  else return []
termination_by stop - cursor

/-- **The constructs of a template**, on a stack with room for so many frames. -/
def scanWithin (src : Bytes) (room : Nat) : Except Halt (List Segment) :=
  call 1 (segmentsWithin src 0 src.size) room

end SyntaxForest.Template
