import SyntaxForest.Template.Lexical

/-!
# Scanning a template

The scanner finds the constructs of a stretch of markup, and inside each
construct's code the runs of markup, whose constructs it finds in turn. The two
directions are two functions over a shared measure, the length of the range that
is left: `readTransition` reads one construct at an `@`, and `splitFrom` cuts a
stretch of code into code and markup runs.

Inside code, markup can begin only where a statement can: after `;`, `{`, `}` or
`:`, or at the start. It begins with a tag, with `@:` (the rest of the line), or
with a construct.
-/

namespace SyntaxForest.Template

open Lexical

/-! ## Words with a meaning -/

/-- Words that open a directive, which takes the rest of its line. -/
def directives : List String :=
  ["addTagHelper", "attribute", "implements", "inherits", "inject", "layout", "model",
    "namespace", "page", "preservewhitespace", "removeTagHelper", "rendermode",
    "tagHelperPrefix", "typeparam", "using"]

/-- Words that announce a block of members. -/
def memberKeywords : List String := ["code", "functions"]

/-- Words that open a control statement. -/
def controlKeywords : List String :=
  ["if", "foreach", "for", "while", "switch", "using", "lock", "try", "do", "section"]

/-- The clauses that can follow the body of a control statement. -/
def continuations (keyword : String) : List String :=
  if keyword = "if" then ["else"]
  else if keyword = "try" then ["catch", "finally"]
  else if keyword = "do" then ["while"]
  else []

/-! ## Control statements -/

/-- The range of a body, inside the braces: it begins after `low` and ends before
`high`. -/
abbrev Body (low high : Nat) := { r : Range // low < r.start ∧ r.stop < high }

/-- Where the clause after `clause` goes on: `else if` is read as one word, and a
condition in parentheses is passed. -/
def clauseHead (src : Bytes) (clause : String) (i stop : Nat) : Scan (AtLeast i) := do
  let ⟨cursor, h₁⟩ ← skipBlanks src i stop
  let ⟨cursor, h₂⟩ ← show Scan (AtLeast cursor) from do
    if clause = "else" then
      let (nested, ⟨nestedEnd, h⟩) ← wordAt src cursor stop
      if nested = "if" then
        let ⟨n, hn⟩ ← skipBlanks src nestedEnd stop
        return ⟨n, Nat.le_trans h hn⟩
      else return .here cursor
    else return .here cursor
  if ← isAt src 0x28 cursor stop then
    let ⟨close, hc⟩ ← closing src cursor stop
    let ⟨n, hn⟩ ← skipBlanks src (close + 1) stop
    return ⟨n, by omega⟩
  else return ⟨cursor, by omega⟩

/-- **The clauses after a body that ended at `i`**: their bodies, and where the
last clause ends. The condition after `do` ends the chain, with its semicolon if
there is one. -/
def clauses (src : Bytes) (keyword : String) (low stop i : Nat) (hlow : low ≤ i) :
    Scan (List (Body low stop) × AtLeast i) := do
  let ⟨start, h₁⟩ ← skipBlanks src i stop
  let (clause, ⟨clauseEnd, h₂⟩) ← wordAt src start stop
  if (continuations keyword).contains clause then
    let ⟨cursor, h₃⟩ ← clauseHead src clause clauseEnd stop
    if keyword = "do" then
      if ← isAt src 0x3B cursor stop then return ([], ⟨cursor + 1, by omega⟩)
      else return ([], ⟨cursor, by omega⟩)
    else if ← isAt src 0x7B cursor stop then
      let ⟨close, h₄, h₅⟩ ← closing src cursor stop
      let (rest, ⟨n, h₆⟩) ← clauses src keyword low stop (close + 1) (by omega)
      return (⟨⟨cursor + 1, close⟩, by simp only; omega⟩ :: rest, ⟨n, by omega⟩)
    else return ([], .here i)
  else return ([], .here i)
termination_by stop - i
decreasing_by omega

/-- A control statement without its markup: what it is, its bodies, and where it
ends. -/
structure ControlHead (low stop : Nat) where
  construct : Construct
  bodies : List (Body low stop)
  finish : AtLeast (low + 1)

/-- What stands between the keyword of a control statement and its first body, if
that can be one: a section has a name, and all but `try` and `do` need a
condition in parentheses. -/
def controlCondition? (src : Bytes) (keyword : String) (i stop : Nat) :
    Scan (Option (Construct × AtLeast i)) := do
  let ⟨cursor, h₁⟩ ← skipBlanks src i stop
  if keyword = "section" then
    let (name, ⟨nameEnd, h₂⟩) ← wordAt src cursor stop
    let ⟨n, h₃⟩ ← skipBlanks src nameEnd stop
    let name := if name = "" then none else some name
    return some (.sectionBlock name, ⟨n, by omega⟩)
  else if ← isAt src 0x28 cursor stop then
    let ⟨close, h₂, h₃⟩ ← closing src cursor stop
    let condition := Text.trim (textOf src (cursor + 1) close)
    let ⟨n, h₄⟩ ← skipBlanks src (close + 1) stop
    return some (.control keyword (some condition), ⟨n, by omega⟩)
  else if keyword = "try" ∨ keyword = "do" then
    return some (.control keyword none, ⟨cursor, h₁⟩)
  else return none

/-- Whether `using` opens a directive here, and not a statement. -/
def isUsingDirective (src : Bytes) (i stop : Nat) : Scan Bool := do
  let ⟨n, _⟩ ← skipBlanks src i stop
  if n < stop then return (← byteAt src n) != 0x28 else return false

/-- Whether a word opens a control statement here. -/
def opensControl (src : Bytes) (word : String) (i stop : Nat) : Scan Bool := do
  if controlKeywords.contains word then
    if word = "using" then return !(← isUsingDirective src i stop) else return true
  else return false

/-- **A control statement** whose `@` stands at `mark` and whose keyword ends at
`i`, if the word opens one and a body follows. -/
def readControl (src : Bytes) (mark : Nat) (keyword : String) (i stop : Nat) (h : mark < i) :
    Scan (Option (ControlHead mark stop)) := do
  if ← opensControl src keyword i stop then
    match ← controlCondition? src keyword i stop with
    | none => return none
    | some (construct, ⟨cursor, h₁⟩) =>
      if ← isAt src 0x7B cursor stop then
        let ⟨close, h₂, h₃⟩ ← closing src cursor stop
        let (rest, ⟨n, h₄⟩) ← clauses src keyword mark stop (close + 1) (by omega)
        return some
          { construct
            bodies := ⟨⟨cursor + 1, close⟩, by simp only; omega⟩ :: rest
            finish := ⟨n, by omega⟩ }
      else return none
  else return none

/-! ## Directives and expressions -/

/-- Back over blanks before `n`, down to `low`. -/
def trimEnd (src : Bytes) (low : Nat) : Nat → Scan Nat
  | 0 => .ok 0
  | n + 1 => do
    if low < n + 1 then
      let b ← byteAt src n
      if b == 0x20 || b == 0x09 || b == 0x0D then trimEnd src low n else return n + 1
    else return n + 1

/-- **A directive**: its value is the rest of the line. -/
def readDirective (src : Bytes) (mark : Nat) (name : String) (i stop : Nat)
    (hi : mark < i) (hs : mark < stop) : Scan (Option Segment × AtLeast (mark + 1)) := do
  let lineEnd := upTo src [0x0A] i stop hi hs
  let valueEnd ← trimEnd src i lineEnd
  let value := Text.trim (textOf src i valueEnd)
  let value := if value = "" then none else some value
  return (some (.simple (.directive name value) mark valueEnd), lineEnd)

/-- **Where an implicit expression ends**: it goes on over member accesses, calls
and indexers, without blanks between them. -/
def implicitEnd (src : Bytes) (i stop : Nat) : Scan (AtLeast i) :=
  if i < stop then do
    let b ← byteAt src i
    let following ← byteAfter src i stop
    if b == 0x2E && Bytes.startsWord following then
      let ⟨n, hn⟩ ← identifierEnd src (i + 1) stop
      return (← implicitEnd src n stop).widen (Nat.le_of_succ_le hn)
    else if ← (if b == 0x3F && following == 0x2E then wordStartsAt src (i + 2) stop
        else return false) then
      let ⟨n, hn⟩ ← identifierEnd src (i + 2) stop
      return (← implicitEnd src n stop).widen (Nat.le_trans (Nat.le_add_right i 2) hn)
    else if b == 0x28 || b == 0x5B then
      let ⟨close, hc, _⟩ ← closing src i stop
      return (← implicitEnd src (close + 1) stop).widen (Nat.le_succ_of_le (Nat.le_of_lt hc))
    else return .here i
  else .ok (.here i)
termination_by stop - i

/-- **An implicit expression**, whose first word ends at `i`. After `await` the
operand's first word belongs to it. A word that goes on with `=`, `-` or `:` is
no expression but an attribute of the markup. -/
def readImplicit (src : Bytes) (mark : Nat) (word : String) (i stop : Nat) (hi : mark < i) :
    Scan (Option Segment × AtLeast (mark + 1)) := do
  let ⟨i, hi⟩ ← show Scan (AtLeast (mark + 1)) from do
    if word = "await" then
      let ⟨operand, h₁⟩ ← skipBlanks src i stop
      if ← wordStartsAt src operand stop then
        let ⟨n, h₂⟩ ← identifierEnd src operand stop
        return ⟨n, by omega⟩
      else return ⟨i, hi⟩
    else return ⟨i, hi⟩
  if (← isAt src 0x3D i stop) || (← isAt src 0x2D i stop) || (← isAt src 0x3A i stop) then
    return (none, ⟨i, hi⟩)
  else
    let ⟨n, hn⟩ ← implicitEnd src i stop
    let expression := textOf src (mark + 1) n
    return (some (.simple (.implicitExpression expression) mark n), ⟨n, by omega⟩)

/-- A block of members, if the word announces one and a brace follows. Its members
hold no markup. -/
def readMembers (src : Bytes) (mark : Nat) (word : String) (i stop : Nat) (hi : mark < i) :
    Scan (Option (Segment × AtLeast (mark + 1))) := do
  if memberKeywords.contains word then
    let ⟨brace, h₁⟩ ← skipBlanks src i stop
    if ← isAt src 0x7B brace stop then
      let ⟨close, h₂, _⟩ ← closing src brace stop
      let segment : Segment :=
        { Segment.simple (.codeBlock (some word)) mark (close + 1) with
          content := some ⟨brace + 1, close⟩ }
      return some (segment, ⟨close + 1, by omega⟩)
    else return none
  else return none

/-! ## Constructs and runs -/

/-- Whether the byte before `mark` could end a word. -/
def isEmbedded (src : Bytes) (mark : Nat) : Scan Bool :=
  if 0 < mark then return Bytes.inWord (← byteAt src (mark - 1)) else .ok false

/-- Whether a tag begins with `<` and this byte. -/
def startsTag (following : UInt8) : Bool := Bytes.startsWord following || following == 0x2F

/-- Past a byte of code: literals are passed whole. -/
def codeStep (src : Bytes) (b following : UInt8) (cursor stop : Nat) :
    Scan (AtLeast (cursor + 1)) :=
  if b == 0x22 then skipString src cursor stop
  else if b == 0x27 then .ok (skipChar src cursor stop)
  else if b == 0x40 && following == 0x22 then skipVerbatim src cursor stop
  else .ok (.here (cursor + 1))

/-- Whether a statement can begin after this byte. -/
def endsStatement (b : UInt8) : Bool := b == 0x3B || b == 0x7B || b == 0x7D || b == 0x3A

mutual

/-- **The markup runs of a stretch of code**, from `cursor` on; `statement` says
whether a statement can begin there. -/
def splitFrom (src : Bytes) (cursor stop : Nat) (statement : Bool) : Scan (List Range) :=
  if hc : cursor < stop then do
    let b ← byteAt src cursor
    let following ← byteAfter src cursor stop
    if Bytes.isBlank b then splitFrom src (cursor + 1) stop statement
    else if b == 0x2F && following == 0x2F then
      let ⟨n, _⟩ := pastOrStop src [0x0A] (cursor + 1) stop (Nat.le_refl _) hc
      splitFrom src n stop statement
    else if b == 0x2F && following == 0x2A then
      let ⟨n, _⟩ := pastOrStop src [0x2A, 0x2F] (cursor + 2) stop
        (Nat.le_succ (cursor + 1)) hc
      splitFrom src n stop statement
    else if statement && b == 0x3C && startsTag following then
      let ⟨n, _⟩ ← elementEnd src cursor stop
      return ⟨cursor, n⟩ :: (← splitFrom src n stop statement)
    else if statement && b == 0x40 && following == 0x3A then
      let ⟨n, _⟩ := upTo src [0x0A] (cursor + 1) stop (Nat.le_refl _) hc
      return ⟨cursor, n⟩ :: (← splitFrom src n stop statement)
    else
      let (segment, ⟨next, _⟩) ← show Scan (Option Segment × AtLeast (cursor + 1)) from
        if statement && b == 0x40 && following != 0x22 then readTransition src cursor stop
        else return (none, .here (cursor + 1))
      if segment.isSome then
        return ⟨cursor, next⟩ :: (← splitFrom src next stop statement)
      else
        let ⟨n, _⟩ ← codeStep src b following cursor stop
        splitFrom src n stop (endsStatement b)
  else .ok []
termination_by 2 * (stop - cursor) + 1

/-- **The construct whose `@` stands at `mark`**, without its nested constructs,
and where scanning goes on. There is none after a byte that could end a word, as
in an e-mail address, and none where two `@` stand for one. -/
def readTransition (src : Bytes) (mark stop : Nat) :
    Scan (Option Segment × AtLeast (mark + 1)) := do
  if ← isEmbedded src mark then return (none, .here (mark + 1))
  else if hs : mark + 1 < stop then
    let b ← byteAt src (mark + 1)
    if b == 0x40 then return (none, ⟨mark + 2, by omega⟩)
    else if b == 0x2A then
      match h : src.find [0x2A, 0x40] (mark + 2) stop with
      | some close =>
        have := Bytes.find_bounds h
        let text := Text.trim (textOf src (mark + 2) close)
        return (some (.simple (.comment text) mark (close + 2)), ⟨close + 2, by omega⟩)
      | none => throw (Fault.unterminated .comment mark)
    else if b == 0x7B then
      let ⟨close, h₁, h₂⟩ ← closing src (mark + 1) stop
      let markup ← splitFrom src (mark + 2) close true
      let segment : Segment :=
        { Segment.simple (.codeBlock none) mark (close + 1) with
          content := some ⟨mark + 2, close⟩
          markup }
      return (some segment, ⟨close + 1, by omega⟩)
    else if b == 0x28 then
      let ⟨close, h₁, _⟩ ← closing src (mark + 1) stop
      let expression := Text.trim (textOf src (mark + 2) close)
      return (some (.simple (.explicitExpression expression) mark (close + 1)),
        ⟨close + 1, by omega⟩)
    else
      let (word, ⟨wordEnd, hw⟩) ← wordAt src (mark + 1) stop
      if word = "" then return (none, .here (mark + 1))
      else
        match ← readMembers src mark word wordEnd stop hw with
        | some (segment, n) => return (some segment, n)
        | none =>
          match ← readControl src mark word wordEnd stop hw with
          | some ⟨construct, bodies, finish⟩ =>
            let runs ← bodies.mapM fun ⟨r, _⟩ =>
              -- the body of a section is markup as a whole
              if word = "section" then return [r] else splitFrom src r.start r.stop true
            let segment : Segment :=
              { Segment.simple construct mark finish with
                bodies := bodies.map fun body => body.1
                markup := runs.flatten }
            return (some segment, finish)
          | none =>
            if directives.contains word then
              readDirective src mark word wordEnd stop hw (by omega)
            else readImplicit src mark word wordEnd stop hw
  else return (none, .here (mark + 1))
termination_by 2 * (stop - mark)

end

/-- **The markup runs of a stretch of code.** -/
def splitCode (src : Bytes) (start stop : Nat) : Scan (List Range) :=
  splitFrom src start stop true

/-- **The constructs of a stretch of markup**, each with the constructs of its own
markup runs. -/
def segments (src : Bytes) (cursor stop : Nat) : Scan (List Segment) :=
  if cursor < stop then
    match h : src.find [0x40] cursor stop with
    | none => .ok []
    | some mark => do
      have := Bytes.find_bounds h
      let (segment?, ⟨next, _⟩) ← readTransition src mark stop
      match segment? with
      | none => segments src next stop
      | some segment =>
        let children ← segment.markup.mapM fun run =>
          -- a run lies inside its construct
          if mark < run.start ∧ run.stop ≤ stop then segments src run.start run.stop
          else return []
        return { segment with children := children.flatten } :: (← segments src next stop)
  else .ok []
termination_by stop - cursor

/-- **The constructs of a template.** -/
def scan (src : Bytes) : Scan (List Segment) := segments src 0 src.size

end SyntaxForest.Template
