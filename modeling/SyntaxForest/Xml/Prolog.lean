import SyntaxForest.Xml.Definitions

/-!
# What stands around the root element

The pieces of markup in front of and behind the root element: blanks, remarks,
and in front of it at most one declaration of the document's type with the
definitions in it. What may come next is a state, and each piece either leads to
another state or is out of place.
-/

namespace SyntaxForest.Xml

/-! ## Pieces -/

/-- **A piece of markup outside the root element.** -/
inductive Mark
  | space
  | selfDeclaration (text : List Char)
  | remark
  | declaration (keyword : List Char)
  | root
  | sectionOpen
  | sectionClose
  | literal (text : List Char)
  | percent
  | parameter
  | comma
  | openBracket
  | closeBracket
  | openParen
  | closeParen (isRepeated : Bool)
  | closeStarred
  | bar
  | close
  | keyword (word : List Char)
  | name (word : List Char)
  | prefixed (word : List Char)
  | token
  | counted
  deriving DecidableEq, Repr

/-- What a word is so far: a name, a name with a prefix, or neither. -/
inductive WordKind
  | plain
  | prefixed
  | token
  deriving DecidableEq, Repr

/-- The mark of a word (last character first). -/
def WordKind.mark (k : WordKind) (word : List Char) : Mark :=
  match k with
  | .plain => .name word.reverse
  | .prefixed => .prefixed word.reverse
  | .token => .token

/-- Characters behind which a word or a literal is complete. -/
def endsWord (c : Char) : Bool :=
  isSpace c || c == '>' || c == ')' || c == ',' || c == '|' || c == '[' || c == '%'

/-- The rest of a word. -/
def wordRest (kind : WordKind) (word : List Char) : List Char → Piece Mark
  | [] => .ok (kind.mark word, [])
  | c :: rest =>
    if isNameChar c then wordRest kind (c :: word) rest
    else if endsWord c then .ok (kind.mark word, c :: rest)
    else if c = '+' || c = '*' || c = '?' then
      if kind = .token then refuse (c :: rest) else .ok (.counted, rest)
    else if c = ':' then
      match kind with
      | .plain =>
        match rest with
        | [] => .error .open
        | d :: _ =>
          if isNameChar d then wordRest .prefixed (c :: word) rest
          else if d = cutOff then .error .cut
          else if 0x80 ≤ d.toNat then refuse rest
          else wordRest .token (c :: word) rest
      | _ => wordRest .token (c :: word) rest
    else refuseName (c :: rest)

/-- The rest of a literal, which ends where its quote stands again, in front of
something that may follow a literal. -/
def literalRest (quote : Char) : List Char → Piece (List Char)
  | [] => .error .open
  | c :: rest =>
    if c = quote then
      match rest with
      | [] => .ok ([], [])
      | d :: _ =>
        if isSpace d || d == '>' || d == '%' || d == '[' then .ok ([], rest) else refuse rest
    else if c = cutOff then .error .cut
    else if isForbidden c then refuse (c :: rest)
    else (literalRest quote rest).map fun (text, after) => (c :: text, after)

/-- A percent sign alone, or the reference to a parameter that it begins. -/
def percentRest : List Char → Piece Mark
  | [] => .error .open
  | c :: rest =>
    if isSpace c || c = '%' then .ok (.percent, c :: rest)
    else
      match name (c :: rest) with
      | .error e => .error e
      | .ok (_, ';' :: after) => .ok (.parameter, after)
      | .ok (_, after) => refuseName after

/-- A word behind a number sign. -/
def keywordRest (s : List Char) : Piece Mark :=
  match name s with
  | .error e => .error e
  | .ok (found, []) => .ok (.keyword found, [])
  | .ok (found, c :: rest) =>
    if isSpace c || c == ')' || c == '>' || c == '%' || c == '|' then
      .ok (.keyword found, c :: rest)
    else refuseName (c :: rest)

/-- Letters of the keyword of a declaration. -/
def isKeywordChar (c : Char) : Bool := c.isAlpha || c == '_'

/-- A declaration's keyword, from behind the exclamation mark, or a comment. -/
def declarationStart : List Char → Piece Mark
  | [] => .error .open
  | '-' :: rest => (comment rest).map fun (_, after) => (.remark, after)
  | '[' :: rest => .ok (.sectionOpen, rest)
  | c :: rest =>
    if !isKeywordChar c then refuse (c :: rest)
    else
      let word := c :: rest.takeWhile isKeywordChar
      match rest.dropWhile isKeywordChar with
      | [] => .error .open
      | d :: more =>
        if isSpace d then .ok (.declaration word, d :: more)
        else if d = '%' then
          match more with
          | [] => .error .open
          | e :: _ =>
            if isSpace e || e = '%' then refuse (d :: more)
            else .ok (.declaration word, d :: more)
        else refuse (d :: more)

/-- **The piece of markup at the beginning of a text that is not empty.** -/
def mark : List Char → Piece Mark
  | [] => .error .open
  | '"' :: rest => (literalRest '"' rest).map fun (text, after) => (.literal text, after)
  | '\'' :: rest => (literalRest '\'' rest).map fun (text, after) => (.literal text, after)
  | ['<'] => .error .open
  | '<' :: '!' :: rest => declarationStart rest
  | '<' :: '?' :: rest =>
    (instruction rest).map fun ((isDeclaration, text), after) =>
      (if isDeclaration then .selfDeclaration text else .remark, after)
  | '<' :: c :: rest =>
    if isNameStart c || c = cutOff || (0x80 ≤ c.toNat && !isForbidden c) then
      .ok (.root, '<' :: c :: rest)
    else refuse (c :: rest)
  | '%' :: rest => percentRest rest
  | ',' :: rest => .ok (.comma, rest)
  | '[' :: rest => .ok (.openBracket, rest)
  | ']' :: ']' :: rest =>
    match rest with
    | [] => .error .open
    | '>' :: after => .ok (.sectionClose, after)
    | _ => .ok (.closeBracket, ']' :: rest)
  | ']' :: rest => .ok (.closeBracket, rest)
  | '(' :: rest => .ok (.openParen, rest)
  | ')' :: rest =>
    match rest with
    | [] => .ok (.closeParen false, [])
    | '*' :: after => .ok (.closeStarred, after)
    | '?' :: after => .ok (.closeParen true, after)
    | '+' :: after => .ok (.closeParen true, after)
    | c :: _ =>
      if isSpace c || c == '>' || c == ',' || c == '|' || c == ')' then
        .ok (.closeParen false, rest)
      else refuse rest
  | '|' :: rest => .ok (.bar, rest)
  | '>' :: rest => .ok (.close, rest)
  | '#' :: rest => keywordRest rest
  | c :: rest =>
    if isSpace c then .ok (.space, skipSpace rest)
    else if isNameStart c then wordRest .plain [c] rest
    else if isNameChar c || c = ':' then wordRest .token [c] rest
    else if c = cutOff then .error .cut
    else refuse (c :: rest)

/-! ## The document's declaration of itself -/

/-- A name with a quoted value in the document's declaration, and the places of
both. -/
structure Pseudo where
  name : List Char
  nameLeft : Nat
  value : List Char
  valueLeft : Nat

/-- Letters, digits and the marks that may stand in a value of the declaration. -/
def isPseudoChar (c : Char) : Bool := c.isAlphanum || c == '.' || c == '-' || c == '_'

/-- The name up to an equals sign or a blank, or the place of a character that
is not ASCII. -/
def pseudoName : List Char → Except Nat (List Char × List Char)
  | [] => .error 0
  | c :: rest =>
    if c = '=' || isSpace c then .ok ([], c :: rest)
    else if 0x80 ≤ c.toNat then .error (rest.length + 1)
    else (pseudoName rest).map fun (n, after) => (c :: n, after)

/-- **The next name and value of the declaration**, if there is one, or the
place of what is wrong. -/
def pseudo (s : List Char) : Except Nat (Option Pseudo × List Char) :=
  match s with
  | [] => .ok (none, [])
  | c :: _ =>
    if !isSpace c then .error s.length
    else
      let begun := skipSpace s
      if begun.isEmpty then .ok (none, s)
      else
        match pseudoName begun with
        | .error left => .error left
        | .ok (found, rest) =>
          match skipSpace rest with
          | '=' :: rest =>
            if found.isEmpty then .error begun.length
            else
              match skipSpace rest with
              | [] => .error 0
              | quote :: rest =>
                if quote ≠ '"' && quote ≠ '\'' then .error (rest.length + 1)
                else
                  let value := rest.takeWhile isPseudoChar
                  match rest.dropWhile isPseudoChar with
                  | [] => .error 0
                  | c :: after =>
                    if c = quote then
                      .ok (some ⟨found, begun.length, value, rest.length⟩, after)
                    else .error (after.length + 1)
          | other => .error other.length

/-- What a document declares of itself: the encoding with the place of its name,
and that it stands alone. -/
structure SelfDeclaration where
  encoding? : Option (String × Nat)
  standsAlone : Bool

/-- The end of the declaration behind what it says of other documents. -/
def standaloneDeclaration (encoding? : Option (String × Nat)) (p : Pseudo) (rest : List Char) :
    Except Nat SelfDeclaration :=
  if p.name ≠ "standalone".toList then .error p.nameLeft
  else if p.value = "yes".toList || p.value = "no".toList then
    let rest := skipSpace rest
    if rest.isEmpty then .ok ⟨encoding?, p.value = "yes".toList⟩ else .error rest.length
  else .error p.valueLeft

/-- **A document's declaration of itself**: a version, then perhaps an encoding,
then perhaps whether it stands alone; or the place of what is wrong. -/
def selfDeclaration (text : List Char) : Except Nat SelfDeclaration :=
  match pseudo text with
  | .error left => .error left
  | .ok (none, _) => .error text.length
  | .ok (some version, rest) =>
    if version.name ≠ "version".toList then .error version.nameLeft
    else
      match pseudo rest with
      | .error left => .error left
      | .ok (none, _) => .ok ⟨none, false⟩
      | .ok (some p, rest) =>
        if p.name ≠ "encoding".toList then standaloneDeclaration none p rest
        else if !(p.value.head?.any Char.isAlpha) then .error p.valueLeft
        else
          let encoding? := some (String.ofList p.value, p.valueLeft)
          match pseudo rest with
          | .error left => .error left
          | .ok (none, _) => .ok ⟨encoding?, false⟩
          | .ok (some q, rest) => standaloneDeclaration encoding? q rest

end SyntaxForest.Xml
