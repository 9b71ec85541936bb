import SyntaxForest.Inventory.Declarations

/-!
# The inventory of asynchronous methods

A method is asynchronous if it says so, or if it returns one of the dialect's
types for results to come. For each such method the suspension points of its own
body are counted, and some idioms are noted. A lambda or a local function inside
the method is a scope of its own, and so is a method inside the method: what is
in there counts for it and not for the method around.
-/

namespace SyntaxForest

open Number

/-- **The record of an asynchronous method.** -/
structure AsyncMethod where
  methodName : String
  returnType : String
  awaitCount : Int := 0
  hasConfigureAwait : Bool := false
  hasWhenAll : Bool := false
  hasWhenAny : Bool := false
  filePath : String := ""
  line : Scalar := .int 0
  deriving DecidableEq, Repr, Inhabited

namespace AsyncMethod

/-- The record as a value. -/
def toValue (m : AsyncMethod) : Value :=
  .record
    [("method_name", .text m.methodName),
      ("return_type", .text m.returnType),
      ("await_count", .int m.awaitCount),
      ("has_configure_await", .bool m.hasConfigureAwait),
      ("has_when_all", .bool m.hasWhenAll),
      ("has_when_any", .bool m.hasWhenAny),
      ("file_path", .text m.filePath),
      ("line", m.line.toValue)]

end AsyncMethod

/-- Whether a method is asynchronous: by its own mark, by a modifier, or by the
type it returns. -/
def isAsyncMethod (v : Vocabulary) (t : Tree) : Bool :=
  (t.get? "is_async").any Scalar.isTrue
    || (splitProperty " " (t.get? "modifiers")).any (v.asyncModifiers.contains ·)
    || match (t.get? "return_type").bind Scalar.text? with
      | some s => s != "" && v.asyncReturnTypes.contains (baseTypeName s)
      | none => false

/-- **Pre-order without some subtrees**: a node where `skip` holds is left out
together with what is below it. -/
def Tree.walkWithout (skip : Tree → Bool) : List Tree → List Tree
  | [] => []
  | t :: waiting =>
    if skip t then Tree.walkWithout skip waiting
    else t :: Tree.walkWithout skip (t.children ++ waiting)
termination_by trees => Tree.sizeAll trees
decreasing_by all_goals (simp [Tree.sizeAll, Tree.size_eq t]; try omega)

/-- **The nodes of a method's own body.** -/
def methodBody (v : Vocabulary) (method : Tree) : List Tree :=
  Tree.walkWithout (fun n => v.scopeTypes.contains n.kind || v.methodTypes.contains n.kind)
    method.children

/-- What is inside the nodes around an argument; a named argument has its value
last. -/
def argumentValue (v : Vocabulary) (t : Tree) : Tree :=
  if v.argumentTypes.contains t.kind then
    match _h : t.children.getLast? with
    | some last => argumentValue v last
    | none => t
  else t
termination_by t.size
decreasing_by
  have := Tree.size_le_sizeAll (List.mem_of_getLast? _h)
  rw [Tree.size_eq t]
  omega

/-- Whether the first argument of a call is a literal. -/
def firstArgumentIs (v : Vocabulary) (call : Tree) (literal : String) : Bool :=
  match call.children.find? (fun c => v.argumentListTypes.contains c.kind) with
  | none => false
  | some list =>
    match list.children with
    | [] => false
    | first :: _ =>
      let value := argumentValue v first
      value.children.isEmpty && value.get? "text" == some (.text literal)

/-! ## One node of a body -/

/-- Whether a node is a suspension point by itself. -/
def isAwait (v : Vocabulary) (t : Tree) : Bool :=
  v.awaitTypes.contains t.kind
    || (v.awaitFlagTypes.contains t.kind && (t.get? "is_await").any Scalar.isTrue)

/-- The member that a node calls; a suspension point calls none. -/
def calledMember? (v : Vocabulary) (t : Tree) : Option String :=
  if !isAwait v t && v.invocationTypes.contains t.kind then
    (t.get? "member_name").bind Scalar.text?
  else none

/-- Whether a node is a suspension point: by itself, or as a blocking call
without arguments. -/
def isSuspension (v : Vocabulary) (t : Tree) : Bool :=
  isAwait v t || (calledMember? v t).any fun m =>
    v.suspensionMembers.contains m
      && (t.get? "argument_count").any fun n => n.equal false (.int 0)

/-- Whether a node is a call that goes on without the caller's context. -/
def isContextFree (v : Vocabulary) (t : Tree) : Bool :=
  (calledMember? v t).any fun m =>
    v.contextFreeMembers.contains m
      && match v.contextFreeArgument with
        | none => true
        | some literal => firstArgumentIs v t literal

/-- The member that a node calls of a type that waits for several operations. -/
def joinedMember? (v : Vocabulary) (t : Tree) : Option String :=
  match (t.get? "receiver").bind Scalar.text? with
  | some receiver =>
    if v.joinReceivers.contains (baseTypeName receiver) then calledMember? v t else none
  | none => none

/-- Whether a node waits for all of several operations. -/
def isWhenAll (v : Vocabulary) (t : Tree) : Bool :=
  (joinedMember? v t).any (v.whenAllMembers.contains ·)

/-- Whether a node waits for the first of several operations. -/
def isWhenAny (v : Vocabulary) (t : Tree) : Bool :=
  (joinedMember? v t).any fun m => !v.whenAllMembers.contains m && v.whenAnyMembers.contains m

/-! ## The inventory -/

/-- **The record of one method.** -/
def AsyncMethod.ofTree (v : Vocabulary) (filePath : String) (method : Tree) : AsyncMethod :=
  let body := methodBody v method
  { methodName := method.name?.getD ""
    returnType := ((method.get? "return_type").map fun s => s.toValue.display).getD ""
    awaitCount := body.countP (isSuspension v)
    hasConfigureAwait := body.any (isContextFree v)
    hasWhenAll := body.any (isWhenAll v)
    hasWhenAny := body.any (isWhenAny v)
    filePath
    line := method.line }

/-- **The asynchronous methods of a tree**, in pre-order. -/
def asyncMethods (v : Vocabulary) (filePath : String) (root : Tree) : List AsyncMethod :=
  (root.walk.filter fun n =>
    v.methodTypes.contains n.kind && n.givenName?.isSome && isAsyncMethod v n).map
      (AsyncMethod.ofTree v filePath)

end SyntaxForest
