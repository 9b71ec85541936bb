import SyntaxForest.Xml.Lexical

/-!
# What a document defines

The entities and the attribute defaults that a document's own definitions give,
and the text that a value stands for under them. An entity's text is read where
it is used, as deep as entities refer to one another; an entity that is being
read may not be used again, so the depth is bounded by their number.
-/

namespace SyntaxForest.Xml

/-- What an entity stands for. -/
inductive Entity
  | text (content : List Char)
  | outside
  | unparsed
  deriving DecidableEq, Repr

/-- What is defined for an attribute of an element: whether its value is a list
of tokens, and the value it has when it is not written. -/
structure AttributeRule where
  element : List Char
  key : List Char
  isTokens : Bool
  value? : Option (List Char)
  deriving DecidableEq, Repr

/-- **A document's definitions.** `isPartial` says that some were not read,
`isReading` that those that follow are taken in, and `standsAlone` that the
document declares to need no others. -/
structure Definitions where
  entities : List (List Char × Entity)
  rules : List AttributeRule
  standsAlone : Bool
  isPartial : Bool
  isReading : Bool
  deriving DecidableEq, Repr

namespace Definitions

/-- No definitions. -/
def empty (standsAlone : Bool) : Definitions := ⟨[], [], standsAlone, false, true⟩

/-- The entity of a name. -/
def entity? (d : Definitions) (name : List Char) : Option Entity := d.entities.lookup name

/-- Whether an entity that is not defined here is defined nowhere. -/
def isComplete (d : Definitions) : Bool := !d.isPartial || d.standsAlone

/-- The entity of a name put in the place of what it stood for. -/
def setEntity (d : Definitions) (name : List Char) (e : Entity) : Definitions :=
  { d with entities := d.entities.map fun (n, old) => (n, if n = name then e else old) }

/-- Whether the values of an attribute are lists of tokens. The first rule
decides. -/
def isTokens (d : Definitions) (element key : List Char) : Bool :=
  match d.rules.find? fun r => r.element = element && r.key = key with
  | some r => r.isTokens
  | none => false

/-- A rule added behind the others. A default counts only for an attribute
without an earlier rule. -/
def addRule (d : Definitions) (r : AttributeRule) : Definitions :=
  if r.value?.isSome && d.rules.any (fun q => q.element = r.element && q.key = r.key)
  then d
  else { d with rules := d.rules ++ [r] }

end Definitions

/-! ## The text of a value -/

/-- A fault in a value: inside it, with `left` of its characters to its end, or
of the markup around it. -/
structure ValueFault where
  fault : Fault
  left? : Option Nat

/-- Whether a blank adds nothing to a list of tokens read so far (last character
first). -/
def endsToken (read : List Char) : Bool :=
  match read with
  | [] => true
  | c :: _ => c = ' '

/-- One character of a value behind those read so far. -/
def addToValue (isTokens : Bool) (read : List Char) (c : Char) : List Char :=
  if isTokens && c = ' ' && endsToken read then read else c :: read

/-- **The text that a value stands for**, last character first, behind `read`.
Blanks of any kind become spaces, references become what they refer to, and in a
list of tokens one space stands between two. `depth` bounds how deep entities
are followed, `fuel` the number of steps in one text, `opened` names the
entities being read. -/
def valueText (d : Definitions) (isTokens : Bool) :
    (depth fuel : Nat) → (opened : List (List Char)) → (read : List Char) → List Char →
      Except ValueFault (List Char)
  | 0, _, _, _, _ => .error ⟨.recursiveEntity, none⟩
  | _ + 1, 0, _, read, _ => .ok read
  | depth + 1, fuel + 1, opened, read, s =>
    match s with
    | [] => .ok read
    | '<' :: _ => .error ⟨.invalidToken, some s.length⟩
    | '\r' :: '\n' :: rest =>
      valueText d isTokens (depth + 1) fuel opened (addToValue isTokens read ' ') rest
    | '&' :: rest =>
      match reference rest with
      | .error (.invalid left) => .error ⟨.invalidToken, some left⟩
      | .error _ => .error ⟨.invalidToken, some s.length⟩
      | .ok (.number n, rest) =>
        match charOfNumber? n with
        | none => .error ⟨.invalidNumber, some s.length⟩
        | some c =>
          valueText d isTokens (depth + 1) fuel opened (addToValue isTokens read c) rest
      | .ok (.entity name, rest) =>
        match predefined? name with
        | some c => valueText d isTokens (depth + 1) fuel opened (c :: read) rest
        | none =>
          match d.entity? name with
          | none =>
            if d.isComplete then .error ⟨.undefinedEntity, none⟩
            else valueText d isTokens (depth + 1) fuel opened read rest
          | some entity =>
            if opened.contains name then .error ⟨.recursiveEntity, some s.length⟩
            else
              match entity with
              | .unparsed => .error ⟨.unparsedEntity, some s.length⟩
              | .outside => .error ⟨.externalEntityInAttribute, some s.length⟩
              | .text content =>
                match valueText d isTokens depth (content.length + 1) (name :: opened) read
                    content with
                | .error e => .error ⟨e.fault, none⟩
                | .ok read => valueText d isTokens (depth + 1) fuel opened read rest
    | c :: rest =>
      valueText d isTokens (depth + 1) fuel opened
        (addToValue isTokens read (if isSpace c then ' ' else c)) rest
termination_by depth fuel => (depth, fuel)

/-- **The text of a written value.** `opened` names the entities being read
around it. -/
def Definitions.valueOf (d : Definitions) (isTokens : Bool) (opened : List (List Char))
    (value : List Char) : Except ValueFault (List Char) :=
  (valueText d isTokens (d.entities.length + 1) (value.length + 1) opened [] value).map
    fun read =>
      match isTokens, read with
      | true, ' ' :: rest => rest.reverse
      | _, read => read.reverse

end SyntaxForest.Xml
