import SyntaxForest.Tree

/-!
# Trees as records

A tree is written as a dictionary with its category, its properties and its
children, and is read back from one. Reading checks a node when it is met: the
children of a node from left to right, then what is below them, the last child
first. The first fault in that order is the one reported.
-/

namespace SyntaxForest.Tree

/-- Why a record is no tree. -/
inductive Fault
  /-- A node without a category. -/
  | noKind
  /-- A property that is no scalar; `kind` is missing when a property is set on a
  node that is there already. -/
  | notScalar (key : Value) (kind : Option String) (got : String)
  /-- A node, or its properties or children, that is of the wrong kind. -/
  | malformed
  deriving Repr

/-- The wording of a fault; a record of the wrong shape has none. -/
def Fault.message : Fault → String
  | .notScalar key kind got =>
    "Property " ++ key.shown
      ++ (match kind with | some k => " of " ++ k | none => "")
      ++ " must be a scalar, got " ++ got
  | .noKind | .malformed => ""

/-! ## Writing -/

mutual

/-- **A tree as a record.** -/
def toValue : Tree → Value
  | node k p c =>
    .record [("node_type", .text k), ("properties", p.toValue),
      ("children", .list (toValues c))]

/-- Several trees as records. -/
def toValues : List Tree → List Value
  | [] => []
  | t :: rest => toValue t :: toValues rest

end

/-! ## Reading -/

/-- The properties that a dictionary's entries give to a node of category
`kind`. -/
def readProperties (kind : String) : List (Value × Value) → Except Fault Properties
  | [] => .ok []
  | (key, value) :: rest =>
    match Scalar.ofValue? value with
    | some s => return (key.display, s) :: (← readProperties kind rest)
    | none => .error (.notScalar key (some kind) value.kindName)

/-- **One node of a record**, without its children. -/
def readHead : Value → Except Fault (String × Properties)
  | .dict entries =>
    match Value.field "node_type" entries with
    | none => .error .noKind
    | some kind => do
      let props ← match Value.field "properties" entries with
        | none => pure []
        | some (.dict props) => readProperties kind.display props
        | some (.list []) | some (.tuple []) | some (.text "") => pure []
        | some _ => .error .malformed
      return (kind.display, props)
  | _ => .error .malformed

mutual

/-- The trees below a node. -/
def readBelow : Value → Except Fault (List Tree)
  | .dict entries => belowEntries entries
  | _ => .error .malformed

/-- The trees in the entry of a record that holds them. -/
def belowEntries : List (Value × Value) → Except Fault (List Tree)
  | [] => .ok []
  | (key, value) :: rest =>
    if key.same (.text "children") then readChildren value else belowEntries rest

/-- The trees of a list of records: first every node of the list, then what is
below each. -/
def readChildren : Value → Except Fault (List Tree)
  | .list items => do
    let heads ← items.mapM readHead
    let below ← readAllBelow items
    return List.zipWith (fun (head : String × Properties) c => node head.1 head.2 c) heads below
  | .tuple items => do
    let heads ← items.mapM readHead
    let below ← readAllBelow items
    return List.zipWith (fun (head : String × Properties) c => node head.1 head.2 c) heads below
  | .text "" => .ok []
  | .dict [] => .ok []
  | _ => .error .malformed

/-- What is below each of several nodes, the last node first. -/
def readAllBelow : List Value → Except Fault (List (List Tree))
  | [] => .ok []
  | value :: rest => do
    let later ← readAllBelow rest
    let mine ← readBelow value
    return mine :: later

end

/-- **The tree that a record stands for.** -/
def ofValue (value : Value) : Except Fault Tree := do
  let (kind, props) ← readHead value
  return node kind props (← readBelow value)

end SyntaxForest.Tree
