import SyntaxForest.Yaml.Scalar

/-!
# Tokens

A text becomes signs, scalars and names, with the beginnings and ends of
indented collections made explicit. What is a key shows only at the colon behind
it, so the places where a key may begin are remembered, one for each depth of
brackets, and the ones that turn out to be keys are put in front of the tokens
there when all is read. A place is forgotten when its line ends or when too much
stands behind it – unless a key has to stand there.
-/

namespace SyntaxForest.Yaml

/-- **A token.** -/
inductive Token
  | version (major : Nat)
  | handle (name address : String)
  | directive
  | documentStart
  | documentEnd
  | blockSequenceStart
  | blockMappingStart
  | blockEnd
  | flowSequenceStart
  | flowSequenceEnd
  | flowMappingStart
  | flowMappingEnd
  | flowEntry
  | blockEntry
  | key
  | value
  | reference (name : String)
  | anchor (name : String)
  | tag (handle : Option String) (suffix : String)
  | scalar (text : String) (plain : Bool)
  deriving DecidableEq, Repr

/-- A place where a key may begin. -/
structure KeyPlace where
  /-- How many tokens stand in front of it. -/
  token : Nat
  /-- Whether a key has to begin here. -/
  required : Bool
  index : Nat
  line : Nat
  column : Nat

/-- A place that has turned out to be a key's. -/
structure FoundKey where
  token : Nat
  /-- Whether an indented mapping begins with it. -/
  opens : Bool

/-- **Tokens being read.** -/
structure Lexer where
  cursor : Cursor
  /-- The tokens so far, the last one first. -/
  tokens : List Token
  count : Nat
  /-- How deep in brackets the place is. -/
  depth : Nat
  /-- The column of the innermost indented collection, and of those around it. -/
  indent : Int
  outer : List Int
  /-- Whether a key may begin here. -/
  keyAllowed : Bool
  places : List (Nat × KeyPlace)
  found : List FoundKey

namespace Lexer

/-- The beginning of a text. -/
def start (cs : List Char) : Lexer :=
  { cursor := .start cs, tokens := [], count := 0, depth := 0, indent := -1, outer := []
    keyAllowed := true, places := [], found := [] }

/-- One more token, and the place behind it. -/
def emit (t : Token) (after : Cursor) (l : Lexer) : Lexer :=
  { l with tokens := t :: l.tokens, count := l.count + 1, cursor := after }

/-- One more token that takes no place. -/
def insert (t : Token) (l : Lexer) : Lexer := l.emit t l.cursor

/-! ## Indentation -/

/-- The collections that end at a column: how many, the indentation left, and
those around it. -/
def unwound (column : Int) : Int → List Int → Nat × Int × List Int
  | indent, [] => (0, indent, [])
  | indent, outer :: rest =>
    if column < indent then
      let (n, indent, rest) := unwound column outer rest
      (n + 1, indent, rest)
    else (0, indent, outer :: rest)

/-- **Collections indented further than a column end.** Brackets have no
indentation. -/
def unwind (column : Int) (l : Lexer) : Lexer :=
  if 0 < l.depth then l
  else
    let (n, indent, outer) := unwound column l.indent l.outer
    { l with
      tokens := List.replicate n .blockEnd ++ l.tokens, count := l.count + n
      indent, outer }

/-- Whether a collection begins at a column. -/
def opensAt (l : Lexer) (column : Nat) : Bool := l.indent < column

/-- The lexer inside a collection that begins at a column. -/
def indented (l : Lexer) (column : Nat) : Lexer :=
  { l with indent := column, outer := l.indent :: l.outer }

/-- A collection begins here, if none does at this column already. -/
def openHere (t : Token) (l : Lexer) : Lexer :=
  if l.opensAt l.cursor.column then (l.indented l.cursor.column).insert t else l

/-! ## Keys -/

/-- Forgets the place at this depth, at which no key may be required. -/
def dropPlace (l : Lexer) : Except Fault Lexer :=
  if (l.places.lookup l.depth).any (·.required) then .error .malformed
  else .ok { l with places := l.places.filter (·.1 != l.depth) }

/-- Remembers that a key may begin here. -/
def savePlace (l : Lexer) : Except Fault Lexer :=
  if l.keyAllowed then do
    let l ← l.dropPlace
    let c := l.cursor
    let required := l.depth == 0 && l.indent == c.column
    return { l with
      places := (l.depth, ⟨l.count, required, c.index, c.line, c.column⟩) :: l.places }
  else .ok l

/-- Whether a place is too far back for a key. -/
def isStale (l : Lexer) (p : KeyPlace) : Bool :=
  p.line != l.cursor.line || 1024 < l.cursor.index - p.index

/-- Forgets places that are too far back. -/
def dropStale (l : Lexer) : Except Fault Lexer :=
  if l.places.any fun (_, p) => l.isStale p && p.required then .error .malformed
  else .ok { l with places := l.places.filter fun (_, p) => !l.isStale p }

/-! ## One token -/

/-- The place behind spaces, remarks and line ends. -/
def skipToToken : Nat → Lexer → Lexer
  | 0, l => l
  | fuel + 1, l =>
    let c := l.cursor.skipSpaces.skipRemark
    match c.lineBreak? with
    | some (_, after) =>
      skipToToken fuel { l with cursor := after, keyAllowed := l.keyAllowed || l.depth == 0 }
    | none => { l with cursor := c }

/-- A line with a directive, from its sign on. -/
def readDirective (c : Cursor) : Except Fault (Token × Cursor) := do
  let (name, c) := c.step.span isNameChar
  if name.isEmpty || !isSpaceOrEnd c.here then throw .malformed
  let (t, c) ←
    if name = "YAML".toList then do
      let (major, c) := c.skipSpaces.span Char.isDigit
      let (minor, after) := c.step.span Char.isDigit
      if major.isEmpty || c.here != '.' || minor.isEmpty || !isSpaceOrEnd after.here then
        throw Fault.malformed
      pure (.version (major.foldl (fun n d => 10 * n + (d.toNat - 48)) 0), after)
    else if name = "TAG".toList then do
      let (h, c) ← handle c.skipSpaces
      if c.here != ' ' then throw Fault.malformed
      let (a, c) ← address c.skipSpaces
      if !isSpaceOrEnd c.here then throw Fault.malformed
      pure (Token.handle h a, c)
    else pure (.directive, c.skip (!isBreak ·))
  return (t, ← restOfLine c)

/-- A sign that begins or ends a document or is a line of its own: all
collections end in front of it. -/
def atMargin (l : Lexer) : Except Fault Lexer := do
  return { ← (l.unwind (-1)).dropPlace with keyAllowed := false }

/-- A bracket opens. -/
def openBracket (t : Token) (l : Lexer) : Except Fault Lexer := do
  let l ← l.savePlace
  return { l.emit t l.cursor.step with depth := l.depth + 1, keyAllowed := true }

/-- A bracket closes. -/
def closeBracket (t : Token) (l : Lexer) : Except Fault Lexer := do
  if l.depth = 0 then throw .malformed
  let l ← l.dropPlace
  return { l.emit t l.cursor.step with depth := l.depth - 1, keyAllowed := false }

/-- An entry of an indented sequence. -/
def beginEntry (l : Lexer) : Except Fault Lexer := do
  if l.depth = 0 && !l.keyAllowed then throw .malformed
  let l := if l.depth = 0 then l.openHere .blockSequenceStart else l
  let l ← dropPlace { l with keyAllowed := true }
  return l.emit .blockEntry l.cursor.step

/-- A key that is announced by a question mark. -/
def beginKey (l : Lexer) : Except Fault Lexer := do
  if l.depth = 0 && !l.keyAllowed then throw .malformed
  let l := if l.depth = 0 then l.openHere .blockMappingStart else l
  let l ← dropPlace { l with keyAllowed := l.depth == 0 }
  return l.emit .key l.cursor.step

/-- **A colon**: what began at the place remembered here was a key; without such
a place, the key was announced or is empty. -/
def beginValue (l : Lexer) : Except Fault Lexer := do
  match l.places.lookup l.depth with
  | some p =>
    let opens := l.depth = 0 && l.opensAt p.column
    let l := { l with
      places := l.places.filter (·.1 != l.depth), found := ⟨p.token, opens⟩ :: l.found
      keyAllowed := false }
    let l := if opens then l.indented p.column else l
    return l.emit .value l.cursor.step
  | none =>
    if l.depth = 0 && !l.keyAllowed then throw .malformed
    let l := if l.depth = 0 then l.openHere .blockMappingStart else l
    let l ← dropPlace { l with keyAllowed := l.depth == 0 }
    return l.emit .value l.cursor.step

/-- A token with which a key may begin, read from here. -/
def content (read : Cursor → Except Fault (Token × Cursor)) (l : Lexer) : Except Fault Lexer := do
  let l ← l.savePlace
  let (t, after) ← read l.cursor
  return { l.emit t after with keyAllowed := false }

/-- Whether a plain text may begin here. -/
def beginsPlain (l : Lexer) : Bool :=
  let c := l.cursor.here
  let next := l.cursor.ahead 1
  !(isGap c || "-?:,[]\x7b\x7d#&*!|>'\"%@\x60".toList.contains c)
    || (!isGap next && (c == '-' || (l.depth == 0 && (c == '?' || c == ':'))))

/-- A plain text. -/
def plainScalar (l : Lexer) : Except Fault Lexer := do
  let l ← l.savePlace
  let (text, crossed, after) := plain (0 < l.depth) (l.indent + 1) l.cursor
  return { l.emit (.scalar (String.ofList text) true) after with keyAllowed := crossed }

/-- A block with its sign. -/
def blockScalar (l : Lexer) : Except Fault Lexer := do
  let l ← dropPlace { l with keyAllowed := true }
  let (text, after) ← block l.indent l.cursor
  return l.emit (.scalar (String.ofList text) false) after

/-- **The token at a place where one begins.** -/
def token (l : Lexer) : Except Fault Lexer :=
  let c := l.cursor
  let next := c.ahead 1
  let gap := isGap next
  let margin := c.column = 0
  if c.here = '%' ∧ margin then do
    let l ← l.atMargin
    let (t, after) ← readDirective c
    return l.emit t after
  else if margin ∧ c.hasMark "---" then do return (← l.atMargin).emit .documentStart (c.steps 3)
  else if margin ∧ c.hasMark "..." then do return (← l.atMargin).emit .documentEnd (c.steps 3)
  else if c.here = '[' then l.openBracket .flowSequenceStart
  else if c.here = '\x7b' then l.openBracket .flowMappingStart
  else if c.here = ']' then l.closeBracket .flowSequenceEnd
  else if c.here = '\x7d' then l.closeBracket .flowMappingEnd
  else if c.here = ',' then do
    let l ← dropPlace { l with keyAllowed := true }
    return l.emit .flowEntry c.step
  else if c.here = '-' ∧ gap then l.beginEntry
  else if c.here = '?' ∧ (0 < l.depth ∨ gap) then l.beginKey
  else if c.here = ':' ∧ (0 < l.depth ∨ gap) then l.beginValue
  else if c.here = '*' then
    l.content fun c => (anchorName c.step).map fun (n, after) => (.reference n, after)
  else if c.here = '&' then
    l.content fun c => (anchorName c.step).map fun (n, after) => (.anchor n, after)
  else if c.here = '!' then
    l.content fun c => (tag c).map fun ((h, s), after) => (.tag h s, after)
  else if (c.here = '|' ∨ c.here = '>') ∧ l.depth = 0 then l.blockScalar
  else if c.here = '\'' ∨ c.here = '"' then
    l.content fun c =>
      (quotedText c).map fun (text, after) => (.scalar (String.ofList text) false, after)
  else if l.beginsPlain then l.plainScalar
  else .error .malformed

/-- The tokens from here to the end of the text. -/
def all : Nat → Lexer → Except Fault Lexer
  | 0, _ => .error .malformed
  | fuel + 1, l =>
    match (l.skipToToken (l.cursor.rest.length + 1)).dropStale with
    | .error e => .error e
    | .ok l =>
      let l := l.unwind l.cursor.column
      if l.cursor.rest.isEmpty then (l.unwind (-1)).dropPlace
      else
        match l.token with
        | .error e => .error e
        | .ok l => all fuel l

end Lexer

/-- Tokens with the found keys in front of theirs; both are given last first. -/
def withKeys (found : List FoundKey) : Nat → List Token → List Token → List Token
  | _, [], after => after
  | count, t :: rest, after =>
    let place := count - 1
    let keys := match found.find? (·.token == place) with
      | none => []
      | some k => if k.opens then [.blockMappingStart, .key] else [.key]
    withKeys found place rest (keys ++ t :: after)

/-- **The tokens of a text.** -/
def tokens (text : String) : Except Fault (List Token) :=
  let cs := text.toList
  if !cs.all isAllowed then .error .malformed
  else
    let l := Lexer.start (match cs with | '\uFEFF' :: rest => rest | _ => cs)
    (l.all (cs.length + 2)).map fun l => withKeys l.found l.count l.tokens []

end SyntaxForest.Yaml
