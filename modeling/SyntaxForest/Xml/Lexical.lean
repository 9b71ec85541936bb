import SyntaxForest.Xml.Fault
import SyntaxForest.Xml.Symbol
import SyntaxForest.Text.Split

/-!
# Names, references and tags

The pieces of markup that a document's body is made of, each read from the
start of a list of characters. A piece is read to its end before any of it is
used, so a tag that the document leaves open is one fault at its beginning,
whatever stands inside it; only a character that can stand nowhere is found
earlier.
-/

namespace SyntaxForest.Xml

/-- Why reading a piece of markup stopped. -/
inductive Stop
  /-- The character with `left` characters to the end cannot stand there. -/
  | invalid (left : Nat)
  /-- The document ends inside. -/
  | open
  /-- The document ends inside a character. -/
  | cut
  deriving DecidableEq, Repr

/-- The fault of a piece that began with `start` characters to the end. -/
def Stop.located (start : Nat) : Stop → Located
  | .invalid left => ⟨.invalidToken, left⟩
  | .open => ⟨.unclosedToken, start⟩
  | .cut => ⟨.partialCharacter, start⟩

/-- What was read, and what comes after it. -/
abbrev Piece (α : Type) := Except Stop (α × List Char)

/-- The end of reading at a character that has no place there. -/
def refuse {α : Type} (s : List Char) : Except Stop α := .error (.invalid s.length)

/-- The end of reading where a name might go on. -/
def refuseName {α : Type} : List Char → Except Stop α
  | [] => .error .open
  | c :: rest => if c = cutOff then .error .cut else refuse (c :: rest)

/-- A list without its leading blanks of the markup. -/
def skipSpace : List Char → List Char
  | [] => []
  | c :: rest => if isSpace c then skipSpace rest else c :: rest

/-! ## Names -/

/-- **A name without a colon.** -/
def name : List Char → Piece (List Char)
  | [] => .error .open
  | c :: rest =>
    if isNameStart c then .ok (c :: rest.takeWhile isNameChar, rest.dropWhile isNameChar)
    else refuseName (c :: rest)

/-- **A name with at most one colon**, which separates a prefix from the rest. -/
def qualifiedName (s : List Char) : Piece (List Char) :=
  match name s with
  | .error e => .error e
  | .ok (first, ':' :: rest) =>
    match name rest with
    | .error e => .error e
    | .ok (_, ':' :: more) => refuse (':' :: more)
    | .ok (second, rest) => .ok (first ++ ':' :: second, rest)
  | .ok (first, rest) => .ok (first, rest)

/-! ## References -/

/-- What a reference refers to: an entity, or a character by its number. -/
inductive Reference
  | entity (name : List Char)
  | number (n : Nat)
  deriving DecidableEq, Repr

/-- The value of a hexadecimal digit. -/
def hexValue? (c : Char) : Option Nat :=
  if c.isDigit then some (c.toNat - '0'.toNat)
  else if 'a' ≤ c && c ≤ 'f' then some (c.toNat - 'a'.toNat + 10)
  else if 'A' ≤ c && c ≤ 'F' then some (c.toNat - 'A'.toNat + 10)
  else none

/-- The value of a decimal digit of the markup. -/
def digitValue? (c : Char) : Option Nat :=
  if c.isDigit then some (c.toNat - '0'.toNat) else none

/-- The rest of a number in a base, up to its semicolon, after a value. -/
def numberRest (digit? : Char → Option Nat) (base value : Nat) : List Char → Piece Nat
  | [] => .error .open
  | c :: rest =>
    match digit? c with
    | some d => numberRest digit? base (value * base + d) rest
    | none => if c = ';' then .ok (value, rest) else refuse (c :: rest)

/-- A number in a base, with at least one digit. -/
def number (digit? : Char → Option Nat) (base : Nat) : List Char → Piece Nat
  | [] => .error .open
  | c :: rest =>
    match digit? c with
    | some d => numberRest digit? base d rest
    | none => refuse (c :: rest)

/-- **A reference**, from behind its ampersand. -/
def reference : List Char → Piece Reference
  | '#' :: 'x' :: rest => (number hexValue? 16 rest).map fun (n, r) => (.number n, r)
  | '#' :: rest => (number digitValue? 10 rest).map fun (n, r) => (.number n, r)
  | s =>
    match name s with
    | .error e => .error e
    | .ok (found, ';' :: rest) => .ok (.entity found, rest)
    | .ok (_, rest) => refuseName rest

/-- The character of a predefined entity. -/
def predefined? (name : List Char) : Option Char :=
  match String.ofList name with
  | "lt" => some '<'
  | "gt" => some '>'
  | "amp" => some '&'
  | "quot" => some '"'
  | "apos" => some '\''
  | _ => none

/-! ## Tags -/

/-- **An attribute as written**: its name, its value between the quotes, and
the places of both. -/
structure RawAttribute where
  name : List Char
  nameLeft : Nat
  value : List Char
  valueLeft : Nat
  deriving DecidableEq, Repr

/-- A start tag as written. -/
structure RawTag where
  name : List Char
  attributes : List RawAttribute
  isEmpty : Bool
  deriving DecidableEq, Repr

/-- The text of a value up to the closing quote, and what follows the quote. -/
def quotedValue (quote : Char) : List Char → Piece (List Char)
  | [] => .error .open
  | c :: rest =>
    if c = quote then .ok ([], rest)
    else if c = cutOff then .error .cut
    else if c = '<' || isForbidden c then refuse (c :: rest)
    else
      let checked :=
        if c = '&' then (reference rest).map fun _ => () else .ok ()
      match checked, quotedValue quote rest with
      | .error e, _ => .error e
      | .ok (), .error e => .error e
      | .ok (), .ok (value, after) => .ok (c :: value, after)

/-- What may stand behind an attribute's name: an equals sign, blanks around
it, and a quoted value. -/
def attributeValue (s : List Char) : Piece (List Char × Nat) :=
  match s with
  | [] => .error .open
  | c :: _ =>
    if !isSpace c && c != '=' then refuseName s
    else
      match skipSpace s with
      | [] => .error .open
      | '=' :: rest =>
        match skipSpace rest with
        | [] => .error .open
        | quote :: rest =>
          if quote == '"' || quote == '\'' then
            (quotedValue quote rest).map fun (v, after) => ((v, rest.length), after)
          else refuse (quote :: rest)
      | other => refuse other

/-- The end of an empty element's tag, from behind its slash. -/
def tagSlash (tag : RawTag) : List Char → Piece RawTag
  | [] => .error .open
  | '>' :: rest => .ok ({ tag with isEmpty := true }, rest)
  | s => refuse s

/-- The attributes of a tag, from behind a blank, and the tag's end. The count
bounds the number of attributes. -/
def attributes (tag : RawTag) : Nat → List Char → Piece RawTag
  | 0, _ => .error .open
  | fuel + 1, s =>
    match skipSpace s with
    | [] => .error .open
    | '>' :: rest => .ok (tag, rest)
    | '/' :: rest => tagSlash tag rest
    | start =>
      match qualifiedName start with
      | .error e => .error e
      | .ok (found, rest) =>
        match attributeValue rest with
        | .error e => .error e
        | .ok ((value, valueLeft), rest) =>
          let tag := { tag with
            attributes := tag.attributes ++ [⟨found, start.length, value, valueLeft⟩] }
          match rest with
          | [] => .error .open
          | '>' :: rest => .ok (tag, rest)
          | '/' :: rest => tagSlash tag rest
          | c :: rest => if isSpace c then attributes tag fuel rest else refuse (c :: rest)

/-- **A start tag**, from behind its opening angle. -/
def startTag (s : List Char) : Piece RawTag :=
  match qualifiedName s with
  | .error e => .error e
  | .ok (found, rest) =>
    let tag : RawTag := ⟨found, [], false⟩
    match rest with
    | [] => .error .open
    | '>' :: rest => .ok (tag, rest)
    | '/' :: rest => tagSlash tag rest
    | c :: rest => if isSpace c then attributes tag (rest.length + 1) rest else refuseName (c :: rest)

/-- The rest of an end tag's name, in which colons are not counted. -/
def endName : List Char → List Char × List Char
  | [] => ([], [])
  | c :: rest =>
    if isNameChar c || c = ':' then
      let (more, after) := endName rest
      (c :: more, after)
    else ([], c :: rest)

/-- **An end tag**, from behind its slash. -/
def endTag : List Char → Piece (List Char)
  | [] => .error .open
  | c :: rest =>
    if !isNameStart c then refuseName (c :: rest)
    else
      let (more, after) := endName rest
      match after with
      | [] => .error .open
      | d :: _ =>
        if isSpace d || d = '>' then
          match skipSpace after with
          | [] => .error .open
          | '>' :: rest => .ok (c :: more, rest)
          | other => refuse other
        else refuseName after

/-! ## Comments, instructions and sections -/

/-- The rest of a comment, in which two hyphens may stand at the end only. -/
def commentRest : List Char → Piece Unit
  | [] => .error .open
  | '-' :: '-' :: rest =>
    match rest with
    | [] => .error .open
    | '>' :: after => .ok ((), after)
    | other => refuse other
  | c :: rest =>
    if c = cutOff then .error .cut
    else if isForbidden c then refuse (c :: rest)
    else commentRest rest

/-- **A comment**, from behind its first hyphen. -/
def comment : List Char → Piece Unit
  | [] => .error .open
  | '-' :: rest => commentRest rest
  | other => refuse other

/-- The text of an instruction up to its end. -/
def instructionRest : List Char → Piece (List Char)
  | [] => .error .open
  | '?' :: '>' :: rest => .ok ([], rest)
  | c :: rest =>
    if c = cutOff then .error .cut
    else if isForbidden c then refuse (c :: rest)
    else (instructionRest rest).map fun (text, after) => (c :: text, after)

/-- **An instruction**, from behind its question mark: whether it is the
document's declaration of itself, and the text behind its target. A target may
be no other spelling of `xml` than that. -/
def instruction (s : List Char) : Piece (Bool × List Char) :=
  match name s with
  | .error e => .error e
  | .ok (target, rest) =>
    let isDeclaration := target == ['x', 'm', 'l']
    let isMisspelt := !isDeclaration && target.map Char.toLower == ['x', 'm', 'l']
    match rest with
    | [] => .error .open
    | c :: _ =>
      if isSpace c then
        if isMisspelt then refuse rest
        else (instructionRest rest).map fun (text, after) => ((isDeclaration, text), after)
      else if c = '?' then
        if isMisspelt then refuse rest
        else
          match rest with
          | _ :: '>' :: after => .ok ((isDeclaration, []), after)
          | [_] => .error .open
          | _ :: other => refuse other
          | [] => .error .open
      else refuseName rest

/-- The opening of a section of plain characters. -/
def sectionOpening : List Char := "CDATA[".toList

/-- The opening of a section, from behind its bracket. Its letters are looked at
one by one once there are enough of them. -/
def sectionStart (s : List Char) : Piece Unit :=
  if s.length < sectionOpening.length then .error .open
  else
    match Text.dropFront? sectionOpening s with
    | some rest => .ok ((), rest)
    | none => refuse (s.drop ((sectionOpening.zip s).takeWhile fun (a, b) => a == b).length)

/-- The characters of a section and what follows it, or the fault in it. -/
def sectionText : List Char → Except Located (List Char × List Char)
  | [] => .error ⟨.unclosedSection, 0⟩
  | ']' :: ']' :: '>' :: rest => .ok ([], rest)
  | [']', ']'] => .error ⟨.unclosedSection, 2⟩
  | [']'] => .error ⟨.unclosedSection, 1⟩
  | ['\r'] => .error ⟨.unclosedSection, 1⟩
  | '\r' :: '\n' :: rest => (sectionText rest).map fun (text, after) => ('\n' :: text, after)
  | c :: rest =>
    if c = cutOff then .error ⟨.partialCharacter, rest.length + 1⟩
    else if isForbidden c then .error ⟨.invalidToken, rest.length + 1⟩
    else (sectionText rest).map fun (text, after) =>
      ((if c = '\r' then '\n' else c) :: text, after)

end SyntaxForest.Xml
