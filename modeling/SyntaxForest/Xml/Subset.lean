import SyntaxForest.Xml.Prolog

/-!
# Definitions in a document

The declaration of a document's type, read one piece of markup at a time. What
may come next is a state; definitions are taken in as they are completed, and the
first of an entity counts. A reference to a parameter may hide definitions, so
those behind it are left out unless the document stands alone.
-/

namespace SyntaxForest.Xml

/-- **What may come next** in front of the root element and in its definitions. -/
inductive Expect
  | anything
  | rootOnly
  | typeName
  | typeSource
  | typePublic
  | typeSystem
  | typeBody
  | definition
  | typeEnd
  | entityName
  | parameterName
  | entityValue (isGeneral : Bool)
  | entityPublic (isGeneral : Bool)
  | entitySystem (isGeneral : Bool)
  | entityKind
  | entityNotation
  | notationName
  | notationSource
  | notationPublic
  | notationSystem
  | notationMore
  | listElement
  | listName
  | listType
  | choiceOpen
  | choiceValue (isNotation : Bool)
  | choiceMore (isNotation : Bool)
  | listDefault
  | listFixed
  | elementName
  | elementKind
  | groupFirst
  | mixedMore
  | mixedName
  | mixedNext
  | groupItem
  | groupMore
  | definitionEnd
  deriving DecidableEq, Repr

/-- **How far a document's definitions have been read**: the definitions, what
may come next, the entity, element and attribute that the declaration at hand is
about, and for each open group whether its items are alternatives. -/
structure Progress where
  defs : Definitions
  expect : Expect
  entity? : Option (List Char)
  element : List Char
  key : List Char
  isTokens : Bool
  groups : List (Option Bool)

/-- Nothing read yet. -/
def Progress.initial (standsAlone : Bool) : Progress :=
  ⟨.empty standsAlone, .anything, none, [], [], false, []⟩

/-- The text of an entity's literal: numbered characters stand for themselves,
references to entities stay as written, and parameters may not be used. -/
def entityText : (fuel : Nat) → List Char → Except (Fault × Nat) (List Char)
  | 0, _ => .ok []
  | fuel + 1, s =>
    match s with
    | [] => .ok []
    | '&' :: rest =>
      match reference rest with
      | .error (.invalid left) => .error (.invalidToken, left)
      | .error _ => .error (.invalidToken, s.length)
      | .ok (.number n, rest) =>
        match charOfNumber? n with
        | none => .error (.invalidNumber, s.length)
        | some c => (entityText fuel rest).map (c :: ·)
      | .ok (.entity name, rest) => (entityText fuel rest).map ('&' :: name ++ ';' :: ·)
    | '%' :: rest =>
      match percentRest rest with
      | .error (.invalid left) => .error (.invalidToken, left)
      | .error _ => .error (.invalidToken, s.length)
      | .ok (.percent, _) => .error (.invalidToken, rest.length)
      | .ok _ => .error (.parameterReference, s.length)
    | '\r' :: '\n' :: rest => (entityText fuel rest).map ('\n' :: ·)
    | c :: rest => (entityText fuel rest).map ((if c = '\r' then '\n' else c) :: ·)

/-- Characters of a public identifier. -/
def isPublicIdChar (c : Char) : Bool :=
  c.isAlphanum || c == '\n' || c == '\r' || " -'()+,./:=?;!*#@$_%".toList.contains c

namespace Progress

/-- The next state, without other effect. -/
def next (p : Progress) (e : Expect) : Except Located Progress := .ok { p with expect := e }

/-- The state behind a public identifier that begins with `left` characters to
the end. -/
def publicId (p : Progress) (left : Nat) (text : List Char) (e : Expect) :
    Except Located Progress :=
  match text.dropWhile isPublicIdChar with
  | [] => p.next e
  | bad => .error ⟨.badPublicId, left - text.length + bad.length⟩

/-- The entity of the declaration at hand put to `e`, if it counts. -/
def define (p : Progress) (e : Entity) : Progress :=
  match p.entity? with
  | some name => if p.defs.isReading then { p with defs := p.defs.setEntity name e } else p
  | none => p

/-- The declaration of a general entity begins. A name that is predefined or
defined already does not count. -/
def beginEntity (p : Progress) (name : List Char) : Progress :=
  let counts := p.defs.isReading && (predefined? name).isNone && (p.defs.entity? name).isNone
  { p with
    entity? := if counts then some name else none
    defs := if counts then { p.defs with entities := (name, .outside) :: p.defs.entities }
      else p.defs }

/-- The literal of an entity's declaration. -/
def entityLiteral (p : Progress) (left : Nat) (text : List Char) : Except Located Progress :=
  if p.defs.isReading then
    match entityText (text.length + 1) text with
    | .error (fault, inner) => .error ⟨fault, left - text.length + inner⟩
    | .ok content => (p.define (.text content)).next .definitionEnd
  else p.next .definitionEnd

/-- A rule for the attribute at hand. -/
def rule (p : Progress) (value? : Option (List Char)) : Progress :=
  if p.defs.isReading then
    { p with defs := p.defs.addRule ⟨p.element, p.key, p.isTokens, value?⟩ }
  else p

/-- The default of the attribute at hand. -/
def defaultLiteral (p : Progress) (left : Nat) (text : List Char) : Except Located Progress :=
  if p.defs.isReading then
    match p.defs.valueOf p.isTokens [] text with
    | .error e =>
      .error ⟨e.fault,
        match e.left? with
        | some inner => left - text.length + inner
        | none => left + 1⟩
    | .ok value => (p.rule (some value)).next .listName
  else p.next .listName

/-- A group closed. -/
def closeGroup (p : Progress) : Progress :=
  let outer := p.groups.drop 1
  { p with groups := outer, expect := if outer.isEmpty then .definitionEnd else .groupMore }

/-- A separator in a group, which has to be the same throughout. -/
def separate (p : Progress) (isChoice : Bool) (left : Nat) : Except Located Progress :=
  match p.groups with
  | some other :: rest =>
    if other = isChoice then .ok { p with expect := .groupItem, groups := some other :: rest }
    else .error ⟨.syntaxError, left⟩
  | none :: rest => .ok { p with expect := .groupItem, groups := some isChoice :: rest }
  | [] => .error ⟨.syntaxError, left⟩

/-- The fault of a piece of markup out of place. -/
def misplaced (m : Mark) (left : Nat) : Except Located Progress :=
  match m with
  | .parameter => .error ⟨.parameterReference, left⟩
  | .selfDeclaration _ => .error ⟨.misplacedDeclaration, left⟩
  | _ => .error ⟨.syntaxError, left⟩

/-- A type's word, such as `CDATA`: whether it makes a list of tokens. -/
def typeWord? (word : List Char) : Option Bool :=
  let word := String.ofList word
  if word = "CDATA" then some false
  else if ["ID", "IDREF", "IDREFS", "ENTITY", "ENTITIES", "NMTOKEN", "NMTOKENS"].contains word
  then some true
  else none

/-- Whether a word is the given one. -/
def isWord (word : List Char) (expected : String) : Bool := word == expected.toList

/-- What follows in a declaration of the type, an entity or a notation. -/
def step (p : Progress) (m : Mark) (left : Nat) : Except Located Progress :=
  match p.expect, m with
  | .anything, .remark => p.next .anything
  | .anything, .declaration word =>
    if isWord word "DOCTYPE" then p.next .typeName else misplaced m left
  | .rootOnly, .remark => p.next .rootOnly
  | .typeName, .name _ => p.next .typeSource
  | .typeName, .prefixed _ => p.next .typeSource
  | .typeSource, .openBracket => p.next .definition
  | .typeSource, .close => p.next .rootOnly
  | .typeSource, .name word =>
    if isWord word "SYSTEM" then p.next .typeSystem
    else if isWord word "PUBLIC" then p.next .typePublic
    else misplaced m left
  | .typePublic, .literal text => p.publicId (left - 1) text .typeSystem
  | .typeSystem, .literal _ =>
    .ok { p with expect := .typeBody, defs := { p.defs with isPartial := true } }
  | .typeBody, .openBracket => p.next .definition
  | .typeBody, .close => p.next .rootOnly
  | .definition, .remark => p.next .definition
  | .definition, .parameter =>
    .ok { p with defs := { p.defs with isPartial := true, isReading := p.defs.standsAlone } }
  | .definition, .closeBracket => p.next .typeEnd
  | .definition, .declaration word =>
    if isWord word "ENTITY" then p.next .entityName
    else if isWord word "ATTLIST" then p.next .listElement
    else if isWord word "ELEMENT" then p.next .elementName
    else if isWord word "NOTATION" then p.next .notationName
    else misplaced m left
  | .typeEnd, .close => p.next .rootOnly
  | .entityName, .percent => p.next .parameterName
  | .entityName, .name word => (p.beginEntity word).next (.entityValue true)
  | .parameterName, .name _ => { p with entity? := none }.next (.entityValue false)
  | .entityValue general, .name word =>
    if isWord word "SYSTEM" then p.next (.entitySystem general)
    else if isWord word "PUBLIC" then p.next (.entityPublic general)
    else misplaced m left
  | .entityValue _, .literal text => p.entityLiteral (left - 1) text
  | .entityPublic general, .literal text => p.publicId (left - 1) text (.entitySystem general)
  | .entitySystem general, .literal _ =>
    p.next (if general then .entityKind else .definitionEnd)
  | .entityKind, .close => p.next .definition
  | .entityKind, .name word =>
    if isWord word "NDATA" then p.next .entityNotation else misplaced m left
  | .entityNotation, .name _ => (p.define .unparsed).next .definitionEnd
  | .notationName, .name _ => p.next .notationSource
  | .notationSource, .name word =>
    if isWord word "SYSTEM" then p.next .notationSystem
    else if isWord word "PUBLIC" then p.next .notationPublic
    else misplaced m left
  | .notationPublic, .literal text => p.publicId (left - 1) text .notationMore
  | .notationSystem, .literal _ => p.next .definitionEnd
  | .notationMore, .literal _ => p.next .definitionEnd
  | .notationMore, .close => p.next .definition
  | .definitionEnd, .close => p.next .definition
  | .listElement, .name word => { p with element := word }.next .listName
  | .listElement, .prefixed word => { p with element := word }.next .listName
  | .listName, .close => p.next .definition
  | .listName, .name word => { p with key := word, isTokens := true }.next .listType
  | .listName, .prefixed word => { p with key := word, isTokens := true }.next .listType
  | .listType, .name word =>
    match typeWord? word with
    | some isTokens => { p with isTokens }.next .listDefault
    | none => if isWord word "NOTATION" then p.next .choiceOpen else misplaced m left
  | .listType, .openParen => p.next (.choiceValue false)
  | .choiceOpen, .openParen => p.next (.choiceValue true)
  | .choiceValue isNotation, .name _ => p.next (.choiceMore isNotation)
  | .choiceValue false, .prefixed _ => p.next (.choiceMore false)
  | .choiceValue false, .token => p.next (.choiceMore false)
  | .choiceMore _, .closeParen false => p.next .listDefault
  | .choiceMore isNotation, .bar => p.next (.choiceValue isNotation)
  | .listDefault, .keyword word =>
    if isWord word "IMPLIED" || isWord word "REQUIRED" then (p.rule none).next .listName
    else if isWord word "FIXED" then p.next .listFixed
    else misplaced m left
  | .listDefault, .literal text => p.defaultLiteral (left - 1) text
  | .listFixed, .literal text => p.defaultLiteral (left - 1) text
  | .elementName, .name _ => p.next .elementKind
  | .elementName, .prefixed _ => p.next .elementKind
  | .elementKind, .name word =>
    if isWord word "EMPTY" || isWord word "ANY" then p.next .definitionEnd else misplaced m left
  | .elementKind, .openParen => { p with groups := [none] }.next .groupFirst
  | .groupFirst, .keyword word =>
    if isWord word "PCDATA" then p.next .mixedMore else misplaced m left
  | .mixedMore, .closeParen false => p.next .definitionEnd
  | .mixedMore, .closeStarred => p.next .definitionEnd
  | .mixedMore, .bar => p.next .mixedName
  | .mixedName, .name _ => p.next .mixedNext
  | .mixedName, .prefixed _ => p.next .mixedNext
  | .mixedNext, .closeStarred => p.next .definitionEnd
  | .mixedNext, .bar => p.next .mixedName
  | .groupMore, .closeParen _ => .ok p.closeGroup
  | .groupMore, .closeStarred => .ok p.closeGroup
  | .groupMore, .comma => p.separate false left
  | .groupMore, .bar => p.separate true left
  | e, .openParen =>
    if e = .groupFirst || e = .groupItem then
      { p with groups := none :: p.groups }.next .groupItem
    else misplaced m left
  | e, .name _ => if e = .groupFirst || e = .groupItem then p.next .groupMore else misplaced m left
  | e, .prefixed _ =>
    if e = .groupFirst || e = .groupItem then p.next .groupMore else misplaced m left
  | e, .counted => if e = .groupFirst || e = .groupItem then p.next .groupMore else misplaced m left
  | _, _ => misplaced m left

end Progress

/-- **What stands in front of the root element**: the definitions there, and the
text from the root element on. The count bounds the pieces of markup. -/
def definitions : (fuel : Nat) → Progress → List Char →
    Except Located (Definitions × List Char)
  | 0, _, _ => .error ⟨.noElement, 0⟩
  | fuel + 1, p, s =>
    if s.isEmpty then .error ⟨.noElement, 0⟩
    else
      match mark s with
      | .error e => .error (e.located s.length)
      | .ok (.space, rest) => definitions fuel p rest
      | .ok (.root, rest) =>
        if p.expect = .anything || p.expect = .rootOnly then .ok (p.defs, rest)
        else .error ⟨.syntaxError, s.length⟩
      | .ok (m, rest) =>
        match p.step m s.length with
        | .error e => .error e
        | .ok p => definitions fuel p rest

/-- **What stands behind the root element**: blanks and remarks only. -/
def remarksOnly : (fuel : Nat) → List Char → Except Located Unit
  | 0, _ => .ok ()
  | fuel + 1, s =>
    if s.isEmpty then .ok ()
    else
      match mark s with
      | .error e => .error (e.located s.length)
      | .ok (.space, rest) => remarksOnly fuel rest
      | .ok (.remark, rest) => remarksOnly fuel rest
      | .ok _ => .error ⟨.junkAfterElement, s.length⟩

end SyntaxForest.Xml
