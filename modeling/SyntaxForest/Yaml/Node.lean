import SyntaxForest.Yaml.Schema
import SyntaxForest.Yaml.Token

/-!
# Nodes

Tokens become a tree of scalars, sequences and mappings, each with the kind of
value that it stands for. A reference stands for the node with its anchor, which
has to be complete before.
-/

namespace SyntaxForest.Yaml

/-- **A node.** -/
inductive Node
  | scalar (kind : Kind) (text : String)
  | sequence (kind : Kind) (items : List Node)
  | mapping (kind : Kind) (entries : List (Node × Node))

/-- Tokens not yet used, and the nodes that anchors name; an anchor whose node is
not complete names none. -/
structure Supply where
  tokens : List Token
  anchors : List (String × Option Node) := []

/-- The reading of something from tokens. -/
abbrev Parsing (α : Type) := StateT Supply (Except Fault) α

namespace Parsing

/-- The next token, if there is one. -/
def peek : Parsing (Option Token) := return (← get).tokens.head?

/-- Uses the next token. -/
def advance : Parsing Unit := modify fun s => { s with tokens := s.tokens.tail }

/-- Whether the next token is one of some. -/
def nextIs (ts : List Token) : Parsing Bool := return (← peek).any ts.contains

/-- Uses the next token if it is a given one. -/
def accept (t : Token) : Parsing Bool := do
  if (← peek) == some t then
    advance
    return true
  else return false

/-- Uses the next token, which has to be a given one. -/
def expect (t : Token) : Parsing Unit := do
  if !(← accept t) then throw .malformed

end Parsing

open Parsing

/-- Null, where nothing is written. -/
def Node.nothing : Node := .scalar .null ""

/-- What stands in front of a node's content. -/
structure Properties where
  anchor : Option String
  tag : Option String

/-- Whether a node without content may follow. -/
def Properties.some? (p : Properties) : Bool := p.anchor.isSome || p.tag.isSome

/-- The kind of a collection. -/
def Properties.collection (p : Properties) (usual : Kind) : Kind :=
  match p.tag with
  | none | some "!" => usual
  | some t => .ofTag t

/-- The kind of a scalar. Without a tag of its own, a quoted text is a text. -/
def Properties.scalar (p : Properties) (plain : Bool) (text : String) : Kind :=
  match p.tag with
  | none => if plain then .ofText text else .text
  | some "!" => .ofText text
  | some t => .ofTag t

/-- A tag with its handle replaced by the address it stands for. -/
def fullTag (handles : List (String × String)) (handle : Option String) (suffix : String) :
    Parsing String :=
  match handle with
  | none => return suffix
  | some h =>
    match handles.lookup h with
    | some address => return address ++ suffix
    | none => throw .malformed

/-- An anchor, if there is one. -/
def anchor? : Parsing (Option String) := do
  match ← peek with
  | some (.anchor n) =>
    advance
    return some n
  | _ => return none

/-- A tag, if there is one. -/
def tag? (handles : List (String × String)) : Parsing (Option String) := do
  match ← peek with
  | some (.tag h s) =>
    advance
    return some (← fullTag handles h s)
  | _ => return none

/-- An anchor and a tag in either order. -/
def properties (handles : List (String × String)) : Parsing Properties := do
  match ← anchor? with
  | some a => return ⟨some a, ← tag? handles⟩
  | none =>
    match ← tag? handles with
    | none => return ⟨none, none⟩
    | some t => return ⟨← anchor?, some t⟩

/-- Names a node by an anchor, or says that an anchor's node is not complete. -/
def declare (anchor : Option String) (node : Option Node) : Parsing Unit :=
  match anchor with
  | none => return
  | some a => modify fun s => { s with anchors := (a, node) :: s.anchors }

/-- A node without content: it has to have an anchor or a tag. -/
def bare (p : Properties) : Parsing Node :=
  if p.some? then return .scalar (p.scalar true "") "" else throw .malformed

/-- Where a node may stand. -/
inductive Context
  /-- Inside brackets. -/
  | flow
  /-- As an item, or as a document. -/
  | block
  /-- In an entry, where a sequence need not be indented. -/
  | entry
  deriving DecidableEq

mutual

/-- **A node.** -/
def node (handles : List (String × String)) : Nat → Context → Parsing Node
  | 0, _ => throw .malformed
  | fuel + 1, context => do
    match ← peek with
    | some (.reference name) =>
      advance
      match (← get).anchors.lookup name with
      | none => throw .malformed
      | some none => throw .endless
      | some (some n) => return n
    | _ =>
      let p ← properties handles
      let named := (← get).anchors.map (·.1)
      if p.anchor.any named.contains then throw .malformed
      declare p.anchor none
      let n ← content handles fuel context p
      declare p.anchor (some n)
      return n

/-- The content of a node. -/
def content (handles : List (String × String)) : Nat → Context → Properties → Parsing Node
  | 0, _, _ => throw .malformed
  | fuel + 1, context, p => do
    let outside := context ≠ .flow
    match ← peek with
    | some .blockEntry =>
      if context = .entry then
        return .sequence (p.collection .list) (← looseItems handles fuel)
      else bare p
    | some (.scalar text plain) =>
      advance
      return .scalar (p.scalar plain text) text
    | some .flowSequenceStart =>
      advance
      return .sequence (p.collection .list) (← flowItems handles fuel true)
    | some .flowMappingStart =>
      advance
      return .mapping (p.collection .dict) (← flowEntries handles fuel true)
    | some .blockSequenceStart =>
      if outside then
        advance
        return .sequence (p.collection .list) (← blockItems handles fuel)
      else bare p
    | some .blockMappingStart =>
      if outside then
        advance
        return .mapping (p.collection .dict) (← blockEntries handles fuel)
      else bare p
    | _ => bare p

/-- A node, or nothing where one of some tokens follows. -/
def nodeUnless (handles : List (String × String)) :
    Nat → Context → List Token → Parsing Node
  | 0, _, _ => throw .malformed
  | fuel + 1, context, ends => do
    if ← nextIs ends then return .nothing else node handles fuel context

/-- The items of an indented sequence. -/
def blockItems (handles : List (String × String)) : Nat → Parsing (List Node)
  | 0 => throw .malformed
  | fuel + 1 => do
    if ← accept .blockEntry then
      let n ← nodeUnless handles fuel .block [.blockEntry, .blockEnd]
      return n :: (← blockItems handles fuel)
    else
      expect .blockEnd
      return []

/-- The items of a sequence that is not indented. -/
def looseItems (handles : List (String × String)) : Nat → Parsing (List Node)
  | 0 => throw .malformed
  | fuel + 1 => do
    if ← accept .blockEntry then
      let n ← nodeUnless handles fuel .block [.blockEntry, .key, .value, .blockEnd]
      return n :: (← looseItems handles fuel)
    else return []

/-- The value of an entry of an indented mapping. -/
def blockValue (handles : List (String × String)) : Nat → Parsing Node
  | 0 => throw .malformed
  | fuel + 1 => do
    if ← accept .value then nodeUnless handles fuel .entry [.key, .value, .blockEnd]
    else return .nothing

/-- The entries of an indented mapping. -/
def blockEntries (handles : List (String × String)) : Nat → Parsing (List (Node × Node))
  | 0 => throw .malformed
  | fuel + 1 => do
    if ← accept .key then
      let k ← nodeUnless handles fuel .entry [.key, .value, .blockEnd]
      let v ← blockValue handles fuel
      return (k, v) :: (← blockEntries handles fuel)
    else
      expect .blockEnd
      return []

/-- The value of an entry in brackets. -/
def flowValue (handles : List (String × String)) : Nat → Token → Parsing Node
  | 0, _ => throw .malformed
  | fuel + 1, close => do
    if ← accept .value then nodeUnless handles fuel .flow [.flowEntry, close]
    else return .nothing

/-- The items of a sequence in brackets; one with a key is a mapping of one
entry. -/
def flowItems (handles : List (String × String)) : Nat → Bool → Parsing (List Node)
  | 0, _ => throw .malformed
  | fuel + 1, first => do
    if ← accept .flowSequenceEnd then return []
    if !first then expect .flowEntry
    if ← accept .flowSequenceEnd then return []
    else if ← accept .key then
      let k ← nodeUnless handles fuel .flow [.value, .flowEntry, .flowSequenceEnd]
      let v ← flowValue handles fuel .flowSequenceEnd
      return .mapping .dict [(k, v)] :: (← flowItems handles fuel false)
    else
      let n ← node handles fuel .flow
      return n :: (← flowItems handles fuel false)

/-- The entries of a mapping in brackets; one without a key sign is a key
alone. -/
def flowEntries (handles : List (String × String)) : Nat → Bool → Parsing (List (Node × Node))
  | 0, _ => throw .malformed
  | fuel + 1, first => do
    if ← accept .flowMappingEnd then return []
    if !first then expect .flowEntry
    if ← accept .flowMappingEnd then return []
    else if ← accept .key then
      let k ← nodeUnless handles fuel .flow [.value, .flowEntry, .flowMappingEnd]
      let v ← flowValue handles fuel .flowMappingEnd
      return (k, v) :: (← flowEntries handles fuel false)
    else
      let k ← node handles fuel .flow
      return (k, .nothing) :: (← flowEntries handles fuel false)

end

end SyntaxForest.Yaml
