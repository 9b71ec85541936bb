import SyntaxForest.Xml.Definitions

/-!
# Elements

A document's tree keeps what manifests are read for: an element's name without
its namespace, its attributes that are in no namespace, the text in front of its
first child, and its children. Prefixes are resolved all the same, because one
that stands for nothing makes a document unreadable.
-/

namespace SyntaxForest.Xml

/-- **An element.** -/
inductive Element where
  | mk (name : String) (attributes : List (String × String)) (text : String)
      (children : List Element)

namespace Element

/-- The name, without a namespace. -/
def name : Element → String
  | mk n _ _ _ => n

/-- The attributes in no namespace. -/
def attributes : Element → List (String × String)
  | mk _ a _ _ => a

/-- The text in front of the first child. -/
def text : Element → String
  | mk _ _ t _ => t

/-- The child elements in order. -/
def children : Element → List Element
  | mk _ _ _ c => c

/-- The value of an attribute. -/
def get? (e : Element) (name : String) : Option String := e.attributes.lookup name

mutual

/-- **The elements of a tree in document order**, the root first. -/
def elements : Element → List Element
  | e@(mk _ _ _ children) => e :: elementsOfAll children

/-- The elements of several trees. -/
def elementsOfAll : List Element → List Element
  | [] => []
  | e :: rest => elements e ++ elementsOfAll rest

end

end Element

/-! ## Namespaces -/

/-- The namespaces that prefixes stand for, the innermost first. The empty
prefix is that of names without one, and stands for nothing where its namespace
is empty. -/
abbrev Scope := List (List Char × List Char)

/-- A namespace that the standard reserves, by what its name ends in. -/
def reservedNamespace (ending : String) : List Char := ("http://www.w3.org/" ++ ending).toList

/-- The namespace of the prefix `xml`. -/
def xmlNamespace : List Char := reservedNamespace "XML/1998/namespace"

/-- The namespace that no prefix may stand for. -/
def declaringNamespace : List Char := reservedNamespace "2000/xmlns/"

/-- The scope of a document. -/
def Scope.initial : Scope := [("xml".toList, xmlNamespace)]

/-- A name's prefix, if it has one, and the rest. -/
def splitName (name : List Char) : Option (List Char) × List Char :=
  match name.dropWhile (· != ':') with
  | [] => (none, name)
  | _ :: rest => (some (name.takeWhile (· != ':')), rest)

/-- The prefix that an attribute declares, if it declares one. -/
def declaredPrefix? (name : List Char) : Option (List Char) :=
  match splitName name with
  | (none, whole) => if whole = "xmlns".toList then some [] else none
  | (some front, rest) => if front = "xmlns".toList then some rest else none

/-- **A scope with one more declaration**, or why it may not be made. -/
def Scope.declare (scope : Scope) (front space : List Char) : Except Fault Scope :=
  let isXml := front = "xml".toList
  if !front.isEmpty && space.isEmpty then .error .undeclaredPrefix
  else if front = "xmlns".toList then .error .reservedDeclaringPrefix
  else if space.contains '}' then .error .syntaxError
  else if isXml && space != xmlNamespace then .error .reservedXmlPrefix
  else if !isXml && space == xmlNamespace then .error .reservedNamespace
  else if space == declaringNamespace then .error .reservedNamespace
  else .ok ((front, space) :: scope)

/-- What is known of a tag's attributes so far: the names used, the scope, the
attributes in no namespace, and the prefixed ones. -/
structure AttributeRead where
  names : List (List Char)
  scope : Scope
  plain : List (String × String)
  prefixed : List (List Char × List Char)

/-- One more attribute with its value. -/
def AttributeRead.add (r : AttributeRead) (name value : List Char) :
    Except Fault AttributeRead :=
  let r := { r with names := name :: r.names }
  match declaredPrefix? name with
  | some front => (r.scope.declare front value).map fun scope => { r with scope }
  | none =>
    match splitName name with
    | (some front, rest) => .ok { r with prefixed := r.prefixed ++ [(front, rest)] }
    | (none, whole) =>
      .ok { r with plain := r.plain ++ [(String.ofList whole, String.ofList value)] }

/-- The written attributes of a tag. A fault inside a value is placed there, and
one of what the value stands for at the tag's beginning, `start`. -/
def AttributeRead.addWritten (d : Definitions) (opened : List (List Char)) (tag : List Char)
    (start : Nat) (r : AttributeRead) : List RawAttribute → Except Located AttributeRead
  | [] => .ok r
  | a :: rest =>
    if r.names.contains a.name then .error ⟨.duplicateAttribute, a.nameLeft⟩
    else
      match d.valueOf (d.isTokens tag a.name) opened a.value with
      | .error e =>
        .error ⟨e.fault,
          match e.left? with
          | some left => a.valueLeft - a.value.length + left
          | none => start⟩
      | .ok value =>
        match r.add a.name value with
        | .error fault => .error ⟨fault, start⟩
        | .ok r => addWritten d opened tag start r rest

/-- The attributes that rules give to a tag without them. -/
def AttributeRead.addDefaults (tag : List Char) (r : AttributeRead) :
    List AttributeRule → Except Fault AttributeRead
  | [] => .ok r
  | rule :: rest =>
    match rule.value? with
    | some value =>
      if rule.element = tag && !r.names.contains rule.key then
        match r.add rule.key value with
        | .error fault => .error fault
        | .ok r => addDefaults tag r rest
      else addDefaults tag r rest
    | none => addDefaults tag r rest

/-- The first fault of prefixed attributes: a prefix that stands for nothing, or
a name that stands for an earlier one's. -/
def prefixFault? (scope : Scope) (seen : List (List Char × List Char)) :
    List (List Char × List Char) → Option Fault
  | [] => none
  | (front, rest) :: more =>
    match scope.lookup front with
    | none => some .unboundPrefix
    | some space =>
      if seen.contains (space, rest) then some .duplicateAttribute
      else prefixFault? scope ((space, rest) :: seen) more

/-- An element that has begun: its name as written, what has been read of it
(text and children last first), and the scope inside. -/
structure Frame where
  written : List Char
  attributes : List (String × String)
  text : List Char
  children : List Element
  scope : Scope

/-- The element that a frame has become. -/
def Frame.close (f : Frame) : Element :=
  .mk (String.ofList (splitName f.written).2) f.attributes (String.ofList f.text.reverse)
    f.children.reverse

/-- **What a tag begins** inside `scope`. -/
def RawTag.begin (d : Definitions) (opened : List (List Char)) (scope : Scope) (start : Nat)
    (tag : RawTag) : Except Located Frame :=
  let located (fault : Fault) : Located := ⟨fault, start⟩
  match AttributeRead.addWritten d opened tag.name start ⟨[], scope, [], []⟩ tag.attributes with
  | .error e => .error e
  | .ok r =>
    match r.addDefaults tag.name d.rules with
    | .error fault => .error (located fault)
    | .ok r =>
      match prefixFault? r.scope [] r.prefixed with
      | some fault => .error (located fault)
      | none =>
        match splitName tag.name with
        | (some front, _) =>
          if (r.scope.lookup front).isNone then .error (located .unboundPrefix)
          else .ok ⟨tag.name, r.plain, [], [], r.scope⟩
        | (none, _) => .ok ⟨tag.name, r.plain, [], [], r.scope⟩

end SyntaxForest.Xml
