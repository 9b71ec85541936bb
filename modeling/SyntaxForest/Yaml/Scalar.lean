import SyntaxForest.Text.Utf8
import SyntaxForest.Yaml.Fault

/-!
# Scalars and names

Texts are written plain, between quotes, or as an indented block. In the first
two, a single line end becomes a space and further ones are kept; in a block,
that depends on its sign. Names of anchors and tags are read here as well. All
of them take a place in the text and yield what is written and the place behind
it.
-/

namespace SyntaxForest.Yaml

open Text

/-- What is read from a place, and the place behind it. -/
abbrev Read (α : Type) := Except Fault (α × Cursor)

/-- The text of a break and of further breaks: one alone folds into a space. -/
def folded (first : Char) (further : List Char) : List Char :=
  (if first ≠ '\n' then [first] else if further.isEmpty then [' '] else []) ++ further

/-! ## Plain -/

/-- Whether a plain text ends before a character, given the one behind it. -/
def endsPlain (inFlow : Bool) (c next : Char) : Bool :=
  isGap c
    || (c == ':' && (isGap next || (inFlow && ",[]\x7b\x7d".toList.contains next)))
    || (inFlow && ",?[]\x7b\x7d".toList.contains c)

/-- The characters of a plain text without gaps, and the place behind them. -/
def plainWord (inFlow : Bool) : List Char → Cursor → List Char × Cursor
  | [], c => ([], c)
  | ch :: rest, c =>
    if endsPlain inFlow ch (rest.head?.getD '\x00') then ([], c)
    else
      let (cs, after) := plainWord inFlow rest c.step
      (ch :: cs, after)

/-- A gap in a plain text: what it stands for, whether it crosses a line's end,
and the place behind it. -/
structure PlainGap where
  text : List Char
  crossed : Bool
  after : Cursor

/-- Further breaks inside a gap, and the place behind them. There are none to
speak of where a document begins or ends. -/
def plainBreaks : Nat → List Char → Cursor → Option (List Char) × Cursor
  | 0, _, c => (none, c)
  | fuel + 1, breaks, c =>
    if c.here = ' ' then plainBreaks fuel breaks c.step
    else
      match c.lineBreak? with
      | none => (some breaks, c)
      | some (b, after) =>
        if after.atDocumentMark then (none, after)
        else plainBreaks fuel (breaks ++ [b]) after

/-- **The gap at a place in a plain text.** -/
def plainGap (c : Cursor) : PlainGap :=
  let (spaces, c) := c.span (· == ' ')
  match c.lineBreak? with
  | none => ⟨spaces, false, c⟩
  | some (first, after) =>
    if after.atDocumentMark then ⟨[], true, after⟩
    else
      match plainBreaks (after.rest.length + 1) [] after with
      | (none, after) => ⟨[], true, after⟩
      | (some breaks, after) => ⟨folded first breaks, true, after⟩

/-- More words of a plain text behind a gap. The answer says whether the last gap
crossed a line's end. -/
def plainFrom (inFlow : Bool) (indent : Int) :
    Nat → List Char → List Char → Bool → Cursor → List Char × Bool × Cursor
  | 0, text, _, crossed, c => (text, crossed, c)
  | fuel + 1, text, gap, crossed, c =>
    if c.here = '#' then (text, crossed, c)
    else
      match plainWord inFlow c.rest c with
      | ([], _) => (text, crossed, c)
      | (word, after) =>
        let text := text ++ gap ++ word
        let next := plainGap after
        if next.text.isEmpty || next.after.here = '#'
            || (!inFlow && (next.after.column : Int) < indent) then
          (text, next.crossed, next.after)
        else plainFrom inFlow indent fuel text next.text next.crossed next.after

/-- **A plain text**, and whether a line ends behind its last word. -/
def plain (inFlow : Bool) (indent : Int) (c : Cursor) : List Char × Bool × Cursor :=
  plainFrom inFlow indent (c.rest.length + 1) [] [] false c

/-! ## Quoted -/

/-- The character that an escape stands for, where it has no code. -/
def escape? (c : Char) : Option Char :=
  [('0', '\x00'), ('a', '\x07'), ('b', '\x08'), ('t', '\t'), ('\t', '\t'), ('n', '\n'),
    ('v', '\x0B'), ('f', '\x0C'), ('r', '\r'), ('e', '\x1B'), (' ', ' '), ('"', '"'),
    ('\\', '\\'), ('/', '/'), ('N', '\u0085'), ('_', '\u00A0'), ('L', '\u2028'),
    ('P', '\u2029')].lookup c

/-- How many digits the code of an escape has. -/
def codeLength? (c : Char) : Option Nat := [('x', 2), ('u', 4), ('U', 8)].lookup c

/-- The character of a code. -/
def ofCode (n : Nat) : Except Fault Char :=
  if n < 0x110000 then .ok (if n.isValidChar then Char.ofNat n else '\uFFFD')
  else if n < 0x80000000 then .error .noCharacter
  else .error .noCode

/-- Breaks inside a quoted text, with the white space around them. -/
def quotedBreaks : Nat → List Char → Cursor → Read (List Char)
  | 0, _, _ => .error .malformed
  | fuel + 1, breaks, c =>
    if c.atDocumentMark then .error .malformed
    else
      let c := c.skip isWhite
      match c.lineBreak? with
      | none => .ok (breaks, c)
      | some (b, after) => quotedBreaks fuel (breaks ++ [b]) after

/-- White space inside a quoted text. -/
def quotedGap (c : Cursor) : Read (List Char) :=
  let (spaces, c) := c.span isWhite
  match c.lineBreak? with
  | none => if c.rest.isEmpty then .error .malformed else .ok (spaces, c)
  | some (first, after) =>
    (quotedBreaks (after.rest.length + 1) [] after).map fun (breaks, c) =>
      (folded first breaks, c)

/-- What an escape stands for, read behind its backslash. -/
def escaped (c : Cursor) : Read (List Char) :=
  match escape? c.here with
  | some ch => .ok ([ch], c.step)
  | none =>
    match codeLength? c.here with
    | some n =>
      let digits := c.step.rest.take n
      if digits.length < n then .error .malformed
      else
        match ofHex digits with
        | none => .error .malformed
        | some code => (ofCode code).map fun ch => ([ch], c.step.steps n)
    | none =>
      match c.lineBreak? with
      | some (_, after) => quotedBreaks (after.rest.length + 1) [] after
      | none => .error .malformed

/-- Whether a character of a quoted text stands for itself in either kind. -/
def isOrdinary (c : Char) : Bool := !(isGap c || c == '"' || c == '\'' || c == '\\')

/-- The rest of a quoted text. -/
def quotedFrom (quote : Char) : Nat → List Char → Cursor → Read (List Char)
  | 0, _, _ => .error .malformed
  | fuel + 1, text, c =>
    let go (more : List Char) (c : Cursor) := quotedFrom quote fuel (text ++ more) c
    if c.here = quote then
      if quote = '\'' ∧ c.ahead 1 = '\'' then go ['\''] (c.steps 2) else .ok (text, c.step)
    else if isOrdinary c.here then
      let (word, after) := c.span isOrdinary
      go word after
    else if c.here = '\\' ∧ quote = '"' then
      match escaped c.step with
      | .error e => .error e
      | .ok (more, after) => go more after
    else if isGap c.here then
      match quotedGap c with
      | .error e => .error e
      | .ok (more, after) => go more after
    else go [c.here] c.step

/-- **A text between quotes**, from its quote on. -/
def quotedText (c : Cursor) : Read (List Char) :=
  quotedFrom c.here (c.rest.length + 1) [] c.step

/-! ## Blocks -/

/-- What stands behind the sign of a block: which breaks at its end are kept –
all, none or, unless it is said, one – and how far it is indented. -/
structure BlockHead where
  keep : Option Bool
  increment : Option Nat

/-- A digit that says how far a block is indented. -/
def increment? (c : Cursor) : Except Fault (Option Nat × Cursor) :=
  if c.here.isDigit then
    if c.here = '0' then .error .malformed
    else .ok (some (c.here.toNat - 48), c.step)
  else .ok (none, c)

/-- A sign that says which breaks are kept. -/
def keep? (c : Cursor) : Option Bool × Cursor :=
  if c.here = '+' then (some true, c.step)
  else if c.here = '-' then (some false, c.step)
  else (none, c)

/-- What stands behind the sign of a block, in either order. -/
def blockHead (c : Cursor) : Except Fault (BlockHead × Cursor) := do
  let (keep, c) := keep? c
  let (increment, c) ← increment? c
  let (keep, c) := if keep.isNone && increment.isSome then keep? c else (keep, c)
  if isSpaceOrEnd c.here then return (⟨keep, increment⟩, c) else .error .malformed

/-- The end of a line with nothing but a remark on it. -/
def restOfLine (c : Cursor) : Except Fault Cursor :=
  let c := c.skipSpaces.skipRemark
  match c.lineBreak? with
  | some (_, after) => .ok after
  | none => if c.rest.isEmpty then .ok c else .error .malformed

/-- Empty lines in front of a block, and how far the furthest of the spaces there
reach. -/
def leadingBreaks : Nat → List Char → Nat → Cursor → List Char × Nat × Cursor
  | 0, breaks, furthest, c => (breaks, furthest, c)
  | fuel + 1, breaks, furthest, c =>
    if c.here = ' ' then leadingBreaks fuel breaks (max furthest c.step.column) c.step
    else
      match c.lineBreak? with
      | some (b, after) => leadingBreaks fuel (breaks ++ [b]) furthest after
      | none => (breaks, furthest, c)

/-- The place behind spaces, but not beyond a column. -/
def skipIndent : Nat → Nat → Cursor → Cursor
  | 0, _, c => c
  | fuel + 1, indent, c =>
    if c.column < indent ∧ c.here = ' ' then skipIndent fuel indent c.step else c

/-- Empty lines inside a block. -/
def blockBreaks (indent : Nat) : Nat → List Char → Cursor → List Char × Cursor
  | 0, breaks, c => (breaks, c)
  | fuel + 1, breaks, c =>
    let c := skipIndent indent indent c
    match c.lineBreak? with
    | some (b, after) => blockBreaks indent fuel (breaks ++ [b]) after
    | none => (breaks, c)

/-- The lines of a block, from one of them on: what has been read, the breaks in
front of the line, and how the block ends – with which break, and which empty
lines. -/
def blockLines (fold : Bool) (indent : Nat) :
    Nat → List Char → List Char → Cursor → List Char × Option Char × List Char × Cursor
  | 0, text, breaks, c => (text, none, breaks, c)
  | fuel + 1, text, breaks, c =>
    let leadingWord := !isWhite c.here
    let (line, c) := c.span (!isBreak ·)
    let text := text ++ breaks ++ line
    let (ending, c) := match c.lineBreak? with
      | some (b, after) => (some b, after)
      | none => (none, c)
    let (breaks, c) := blockBreaks indent (c.rest.length + 1) [] c
    if c.column = indent ∧ ¬ c.rest.isEmpty then
      let isFolded := fold && ending == some '\n' && leadingWord && !isWhite c.here
      let joint := if isFolded then (if breaks.isEmpty then [' '] else []) else ending.toList
      blockLines fold indent fuel (text ++ joint) breaks c
    else (text, ending, breaks, c)

/-- **An indented block**, from its sign on, inside a given indentation. -/
def block (indent : Int) (c : Cursor) : Except Fault (List Char × Cursor) := do
  let fold := c.here = '>'
  let (head, c) ← blockHead c.step
  let c ← restOfLine c
  let least := max 1 (indent + 1).toNat
  let (breaks, column, c) := match head.increment with
    | none =>
      let (breaks, furthest, c) := leadingBreaks (c.rest.length + 1) [] 0 c
      (breaks, max least furthest, c)
    | some n =>
      let column := least + n - 1
      let (breaks, c) := blockBreaks column (c.rest.length + 1) [] c
      (breaks, column, c)
  let (text, ending, breaks, c) :=
    if c.column = column ∧ ¬ c.rest.isEmpty then
      blockLines fold column (c.rest.length + 1) [] breaks c
    else ([], none, breaks, c)
  let final := match head.keep with
    | some false => []
    | some true => ending.toList ++ breaks
    | none => ending.toList
  return (text ++ final, c)

/-! ## Names -/

/-- **The name of an anchor**, behind its sign. -/
def anchorName (c : Cursor) : Read String :=
  let (name, c) := c.span isNameChar
  if name.isEmpty then .error .malformed
  else if isGap c.here || "?:,]\x7d%@\x60".toList.contains c.here then
    .ok (String.ofList name, c)
  else .error .malformed

/-- Whether a character may be part of a tag's address. -/
def isAddressChar (c : Char) : Bool :=
  c.isAlphanum || "-;/?:@&=+$,_.!~*'()[]".toList.contains c

/-- Bytes that are written in hexadecimal digits behind per cent signs. -/
def addressBytes : List Char → Option (List UInt8 × Nat)
  | '%' :: a :: b :: rest =>
    match ofHex [a, b] with
    | none => none
    | some n => (addressBytes rest).map fun (bytes, count) => (UInt8.ofNat n :: bytes, count + 3)
  | '%' :: _ => none
  | _ => some ([], 0)

/-- More of an address. -/
def addressFrom : Nat → List Char → Cursor → Read (List Char)
  | 0, _, _ => .error .malformed
  | fuel + 1, text, c =>
    let (word, c) := c.span isAddressChar
    let text := text ++ word
    if c.here = '%' then
      match addressBytes c.rest with
      | none => .error .malformed
      | some (bytes, count) =>
        match Utf8.decode ⟨bytes⟩ with
        | .error _ => .error .malformed
        | .ok s => addressFrom fuel (text ++ s.toList) (c.steps count)
    else .ok (text, c)

/-- **The address of a tag.** -/
def address (c : Cursor) : Read String :=
  match addressFrom (c.rest.length + 1) [] c with
  | .error e => .error e
  | .ok ([], _) => .error .malformed
  | .ok (text, c) => .ok (String.ofList text, c)

/-- A handle: a name between exclamation marks, or one of them in front of a
space. -/
def handle (c : Cursor) : Read String :=
  if c.here ≠ '!' then .error .malformed
  else if c.ahead 1 = ' ' then .ok ("!", c.step)
  else
    let (name, after) := c.step.span isNameChar
    if after.here = '!' then .ok (String.ofList ('!' :: name ++ ['!']), after.step)
    else .error .malformed

/-- **A tag**: a handle, if it has one, and an address. -/
def tag (c : Cursor) : Except Fault ((Option String × String) × Cursor) := do
  let next := c.ahead 1
  let ((first, suffix), c) ←
    if next = '<' then do
      let (suffix, c) ← address (c.steps 2)
      if c.here = '>' then pure ((none, suffix), c.step) else throw Fault.malformed
    else if isGap next then pure ((none, "!"), c.step)
    else do
      let word := c.step.rest.takeWhile (!isSpaceOrEnd ·)
      let (first, c) ← if word.contains '!' then handle c else pure ("!", c.step)
      let (suffix, c) ← address c
      pure ((some first, suffix), c)
  if isSpaceOrEnd c.here then return ((first, suffix), c) else throw Fault.malformed

end SyntaxForest.Yaml
