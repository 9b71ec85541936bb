/-!
# What is wrong with a document

Each fault has a place, given while reading as the number of characters from
there to the end, and shown as a line from one and a column from zero.
-/

namespace SyntaxForest.Xml

/-- What is wrong with a document. -/
inductive Fault
  | syntaxError
  | noElement
  | invalidToken
  | unclosedToken
  | partialCharacter
  | mismatchedTag
  | duplicateAttribute
  | junkAfterElement
  | parameterReference
  | undefinedEntity
  | skippedEntity (name : String)
  | recursiveEntity
  | asynchronousEntity
  | invalidNumber
  | unparsedEntity
  | externalEntityInAttribute
  | misplacedDeclaration
  | unknownEncoding
  | wrongEncoding
  | unclosedSection
  | badDeclaration
  | badPublicId
  | unboundPrefix
  | undeclaredPrefix
  | reservedXmlPrefix
  | reservedDeclaringPrefix
  | reservedNamespace
  deriving DecidableEq, Repr

/-- The wording of a fault, without its place. -/
def Fault.text : Fault → String
  | .syntaxError => "syntax error"
  | .noElement => "no element found"
  | .invalidToken => "not well-formed (invalid token)"
  | .unclosedToken => "unclosed token"
  | .partialCharacter => "partial character"
  | .mismatchedTag => "mismatched tag"
  | .duplicateAttribute => "duplicate attribute"
  | .junkAfterElement => "junk after document element"
  | .parameterReference => "illegal parameter entity reference"
  | .undefinedEntity => "undefined entity"
  | .skippedEntity name => "undefined entity &" ++ name ++ ";"
  | .recursiveEntity => "recursive entity reference"
  | .asynchronousEntity => "asynchronous entity"
  | .invalidNumber => "reference to invalid character number"
  | .unparsedEntity => "reference to binary entity"
  | .externalEntityInAttribute => "reference to external entity in attribute"
  | .misplacedDeclaration => "XML or text declaration not at start of entity"
  | .unknownEncoding => "unknown encoding"
  | .wrongEncoding => "encoding specified in XML declaration is incorrect"
  | .unclosedSection => "unclosed CDATA section"
  | .badDeclaration => "XML declaration not well-formed"
  | .badPublicId => "illegal character(s) in public id"
  | .unboundPrefix => "unbound prefix"
  | .undeclaredPrefix => "must not undeclare prefix"
  | .reservedXmlPrefix =>
    "reserved prefix (xml) must not be undeclared or bound to another namespace name"
  | .reservedDeclaringPrefix => "reserved prefix (xmlns) must not be declared or undeclared"
  | .reservedNamespace => "prefix must not be bound to one of the reserved namespace names"

/-- A fault, and how many characters lie from its place to the end. -/
structure Located where
  fault : Fault
  left : Nat
  deriving DecidableEq, Repr

/-- A place in a document: its line from one, its column from zero. -/
structure Place where
  line : Nat
  column : Nat
  deriving DecidableEq, Repr

/-- The place behind some characters. A return, alone or before a feed, ends a
line as a feed does. -/
def Place.after (p : Place) : List Char → Place
  | [] => p
  | '\r' :: '\n' :: rest => Place.after ⟨p.line + 1, 0⟩ rest
  | '\r' :: rest => Place.after ⟨p.line + 1, 0⟩ rest
  | '\n' :: rest => Place.after ⟨p.line + 1, 0⟩ rest
  | _ :: rest => Place.after ⟨p.line, p.column + 1⟩ rest

/-- The place with `left` characters to the end of a document. -/
def Place.before (document : List Char) (left : Nat) : Place :=
  Place.after ⟨1, 0⟩ (document.take (document.length - left))

end SyntaxForest.Xml
