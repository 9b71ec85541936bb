import SyntaxForest.Yaml.Node

/-!
# Settings documents

A text holds at most one document, whose node is read as a value. A dictionary
can merge others: their entries come first and give way to its own. Of equal
keys the last one counts, and no collection is a key.
-/

namespace SyntaxForest.Yaml

open Parsing

/-! ## Documents -/

/-- The directives in front of a document: the handles they declare. -/
def directives : Nat → Bool → List (String × String) → Parsing (List (String × String))
  | 0, _, _ => throw .malformed
  | fuel + 1, versioned, handles => do
    match ← peek with
    | some (.version major) =>
      advance
      if versioned || major != 1 then throw .malformed
      directives fuel true handles
    | some (.handle name address) =>
      advance
      if handles.any (·.1 == name) then throw .malformed
      directives fuel versioned ((name, address) :: handles)
    | some .directive =>
      advance
      directives fuel versioned handles
    | _ => return handles

/-- The handles that are known without being declared. -/
def knownHandles : List (String × String) := [("!", "!"), ("!!", standard)]

/-- Uses tokens that end a document. -/
def skipEnds : Nat → Parsing Unit
  | 0 => return
  | fuel + 1 => do if ← accept .documentEnd then skipEnds fuel

/-- **The only document of some tokens**, if there is one. -/
def document (fuel : Nat) : Parsing (Option Node) := do
  match ← peek with
  | none => return none
  | some t =>
    let declares := match t with
      | .version _ | .handle .. | .directive | .documentStart => true
      | _ => false
    let n ←
      if declares then do
        let handles ← directives fuel false []
        expect .documentStart
        let handles := handles ++ knownHandles
        match ← peek with
        | none | some (.version _) | some (.handle ..) | some .directive | some .documentStart
        | some .documentEnd => pure Node.nothing
        | _ => node handles fuel .block
      else node knownHandles fuel .block
    skipEnds fuel
    if (← peek).isSome then throw .malformed
    return some n

/-! ## Values -/

/-- The numbers of six bits that base-64 letters stand for. -/
def sextet? (c : Char) : Option Nat :=
  if 'A' ≤ c && c ≤ 'Z' then some (c.toNat - 65)
  else if 'a' ≤ c && c ≤ 'z' then some (c.toNat - 71)
  else if c.isDigit then some (c.toNat + 4)
  else if c = '+' then some 62
  else if c = '/' then some 63
  else none

/-- The bytes of letters in base 64, four by four; `=` fills up the last four. -/
def bytesOf : List Nat → Nat → Option (List UInt8)
  | a :: b :: c :: d :: rest, fill =>
    let n := ((a * 64 + b) * 64 + c) * 64 + d
    let three := [UInt8.ofNat (n / 65536), UInt8.ofNat (n / 256), UInt8.ofNat n]
    (bytesOf rest fill).map (three ++ ·)
  | [a, b, c], fill =>
    if fill = 0 then none
    else
      let n := (a * 64 + b) * 64 + c
      some [UInt8.ofNat (n / 1024), UInt8.ofNat (n / 4)]
  | [a, b], fill => if fill < 2 then none else some [UInt8.ofNat ((a * 64 + b) / 16)]
  | [_], _ => none
  | [], _ => some []

/-- **The bytes that a text in base 64 stands for**; other characters than its
letters are passed over. -/
def binary (s : String) : Except Fault (List UInt8) :=
  if s.toList.any fun c => 0x80 ≤ c.toNat then .error .malformed
  else
    let letters := s.toList.filter fun c => c == '=' || (sextet? c).isSome
    let body := letters.takeWhile (· != '=')
    let fill := (letters.dropWhile (· != '=')).takeWhile (· == '=')
    match bytesOf (body.filterMap sextet?) fill.length with
    | some bytes => .ok bytes
    | none => .error .malformed

/-- **The value of a scalar.** -/
def scalarValue (kind : Kind) (s : String) : Except Fault Value :=
  match kind with
  | .null => .ok .null
  | .bool => (truth s).map .bool
  | .int => (integer s).map .int
  | .real => (real s).map .real
  | .text => .ok (.text s)
  | .bytes => (binary s).map .bytes
  | .moment => moment s
  | _ => .error .malformed

/-- Whether a value can be a key. -/
def isKey : Value → Bool
  | .list _ | .tuple _ | .dict _ | .set _ => false
  | _ => true

namespace Node

/-- The kind of a node. -/
def kind : Node → Kind
  | .scalar k _ | .sequence k _ | .mapping k _ => k

mutual

/-- The text that a node stands for where a scalar is asked for: its own, or what
is under the default key of a mapping. -/
def scalarText? : Node → Option String
  | .scalar _ s => some s
  | .sequence _ _ => none
  | .mapping _ entries => defaultText? entries

/-- The text under the default key. -/
def defaultText? : List (Node × Node) → Option String
  | [] => none
  | (k, v) :: rest => if k.kind = .default then scalarText? v else defaultText? rest

end

mutual

/-- **The value of a node.** -/
def value : Node → Except Fault Value
  | .scalar kind s => scalarValue kind s
  | .sequence kind items =>
    match kind with
    | .list => (values items).map .list
    | .pairs => (pairs items).map .list
    | _ => .error .malformed
  | .mapping kind entries =>
    match kind with
    | .dict => (allEntries entries).map fun es => .dict (Value.enterAll es)
    | .set => (allEntries entries).map fun es => .set ((Value.enterAll es).map (·.1))
    | .list | .pairs | .merge | .default | .unknown => .error .malformed
    | k =>
      match defaultText? entries with
      | some s => scalarValue k s
      | none => .error .malformed

/-- The values of nodes. -/
def values : List Node → Except Fault (List Value)
  | [] => .ok []
  | n :: rest => do return (← value n) :: (← values rest)

/-- Mappings of one entry each, as pairs. -/
def pairs : List Node → Except Fault (List Value)
  | [] => .ok []
  | .mapping _ [(k, v)] :: rest => do
    return .tuple [← value k, ← value v] :: (← pairs rest)
  | _ :: _ => .error .malformed

/-- The entries of a mapping with those that it merges in front. -/
def allEntries (entries : List (Node × Node)) : Except Fault (List (Value × Value)) := do
  return (← merged entries) ++ (← ownEntries entries)

/-- The entries that a mapping does not merge. -/
def ownEntries : List (Node × Node) → Except Fault (List (Value × Value))
  | [] => .ok []
  | (k, v) :: rest =>
    if k.kind = .merge then ownEntries rest
    else do
      let key ← if k.kind = .default then pure (.text ((scalarText? k).getD "")) else value k
      if !isKey key then throw .malformed
      return (key, ← value v) :: (← ownEntries rest)

/-- The entries that a mapping merges, in order. -/
def merged : List (Node × Node) → Except Fault (List (Value × Value))
  | [] => .ok []
  | (k, v) :: rest =>
    if k.kind = .merge then do return (← mergeable v) ++ (← merged rest) else merged rest

/-- The entries of what is merged: a mapping, or mappings of which the first
counts most. -/
def mergeable : Node → Except Fault (List (Value × Value))
  | .mapping _ entries => allEntries entries
  | .sequence _ items => mergeableAll items
  | .scalar _ _ => .error .malformed

/-- The entries of mappings that are merged together, the last one's first. -/
def mergeableAll : List Node → Except Fault (List (Value × Value))
  | [] => .ok []
  | .mapping _ entries :: rest => do return (← mergeableAll rest) ++ (← allEntries entries)
  | _ :: _ => .error .malformed

end

end Node

/-- **The value that a text holds**: null if it holds none. -/
def load (text : String) : Except Fault Value := do
  let ts ← tokens text
  let (found, _) ← (document (3 * ts.length + 8)).run { tokens := ts }
  match found with
  | none => return .null
  | some n => n.value

end SyntaxForest.Yaml
