import SyntaxForest.Tree
import SyntaxForest.Vocabulary

/-!
# The inventory of declarations

The names that a tree declares, by kind of declaration and in pre-order, and a
summary of every class-like declaration with the members that are its own. A
member belongs to the nearest type around it: the search for members stops at a
nested type, which is a member itself but keeps its members to itself.
-/

namespace SyntaxForest

/-! ## Lists in properties -/

/-- **The parts of a text that joins several**: between separators, trimmed,
without the blank ones. -/
def splitList (sep s : String) : List String :=
  ((Text.split sep s).map Text.trim).filter (· != "")

/-- The parts of a property; one that is no text has none. -/
def splitProperty (sep : String) : Option Scalar → List String
  | some (.text s) => splitList sep s
  | _ => []

/-- An empty separator separates nothing. -/
inductive SplitFault
  | emptySeparator
  deriving DecidableEq, Repr

/-- The wording of the fault. -/
def SplitFault.message : SplitFault → String
  | .emptySeparator => "empty separator"

/-- The parts of any value. A value that is no text, or blank, has none, whatever
the separator. -/
def splitValue? (sep : String) : Value → Except SplitFault (List String)
  | .text s =>
    if Text.isBlankText s then .ok []
    else if sep = "" then .error .emptySeparator
    else .ok (splitList sep s)
  | _ => .ok []

/-! ## Summaries -/

/-- **The summary of a class-like declaration.** -/
structure TypeSummary where
  name : String
  filePath : String
  line : Scalar
  modifiers : List String := []
  baseTypes : List String := []
  methods : List String := []
  properties : List String := []
  deriving DecidableEq, Repr, Inhabited

namespace TypeSummary

/-- A summary as a record. -/
def toValue (s : TypeSummary) : Value :=
  .record
    [("name", .text s.name),
      ("file_path", .text s.filePath),
      ("line", s.line.toValue),
      ("modifiers", .texts s.modifiers),
      ("base_types", .texts s.baseTypes),
      ("methods", .texts s.methods),
      ("properties", .texts s.properties)]

end TypeSummary

/-- The name of a node, unless it is empty. -/
def Tree.givenName? (t : Tree) : Option String := t.name?.filter (· != "")

/-- **Pre-order that does not pass `stop`**: a node where it holds is visited, but
not what is below it. -/
def Tree.walkUpTo (stop : Tree → Bool) : List Tree → List Tree
  | [] => []
  | t :: waiting =>
    t :: if stop t then Tree.walkUpTo stop waiting
      else Tree.walkUpTo stop (t.children ++ waiting)
termination_by trees => Tree.sizeAll trees
decreasing_by all_goals (simp [Tree.sizeAll, Tree.size_eq t]; try omega)

/-- **The members of a type declaration**, those of nested types left out. -/
def directMembers (v : Vocabulary) (t : Tree) : List Tree :=
  Tree.walkUpTo (fun n => v.typeDeclarationTypes.contains n.kind) t.children

/-- The names of the members that are of some kinds. -/
def memberNames (members : List Tree) (p : String → Bool) : List String :=
  (members.filter fun m => p m.kind).filterMap Tree.givenName?

/-- **The summary of one declaration.** A category that is both a method's and a
property's counts as a method's. -/
def TypeSummary.ofTree (v : Vocabulary) (filePath : String) (t : Tree) : TypeSummary :=
  let members := directMembers v t
  { name := t.name?.getD ""
    filePath
    line := t.line
    modifiers := splitProperty " " (t.get? "modifiers")
    baseTypes := splitProperty "," (t.get? "base_types")
    methods := memberNames members fun k => v.methodTypes.contains k
    properties := memberNames members fun k =>
      !v.methodTypes.contains k && v.propertyTypes.contains k }

/-! ## The inventory -/

/-- **What a tree declares.** -/
structure Declarations where
  classes : List String := []
  interfaces : List String := []
  enums : List String := []
  methods : List String := []
  properties : List String := []
  classDetails : List TypeSummary := []
  deriving DecidableEq, Repr, Inhabited

/-- The kinds of declarations. A category is of the first kind that claims it. -/
inductive DeclarationKind
  | classLike
  | interfaceLike
  | enumLike
  | methodLike
  | propertyLike
  deriving DecidableEq, Repr

/-- The kind of declaration that a category is. -/
def Vocabulary.declarationKind? (v : Vocabulary) (category : String) : Option DeclarationKind :=
  if v.classTypes.contains category then some .classLike
  else if v.interfaceTypes.contains category then some .interfaceLike
  else if v.enumTypes.contains category then some .enumLike
  else if v.methodTypes.contains category then some .methodLike
  else if v.propertyTypes.contains category then some .propertyLike
  else none

/-- **The inventory of a tree.** Nodes without a name declare nothing. -/
def Declarations.ofTree (v : Vocabulary) (filePath : String) (root : Tree) : Declarations :=
  let named := root.walk.filter fun n => n.givenName?.isSome
  let ofKind (k : DeclarationKind) : List Tree :=
    named.filter fun n => v.declarationKind? n.kind == some k
  let namesOf (k : DeclarationKind) : List String := (ofKind k).filterMap Tree.givenName?
  { classes := namesOf .classLike
    interfaces := namesOf .interfaceLike
    enums := namesOf .enumLike
    methods := namesOf .methodLike
    properties := namesOf .propertyLike
    classDetails := (ofKind .classLike).map (TypeSummary.ofTree v filePath) }

/-! ## Tests

A class is a test fixture if it carries a test attribute, or if a method of its
own does, named or not.
-/

/-- Whether a node carries a test attribute. -/
def hasTestAttribute (v : Vocabulary) (t : Tree) : Bool :=
  (splitProperty "," (t.get? "attributes")).any fun a =>
    v.testAttributes.contains (attributeBaseName a)

/-- Whether a class is a test fixture. -/
def isTestClass (v : Vocabulary) (t : Tree) : Bool :=
  hasTestAttribute v t
    || (directMembers v t).any fun m => v.methodTypes.contains m.kind && hasTestAttribute v m

/-- **The test fixtures of a tree**, in pre-order. -/
def testClasses (v : Vocabulary) (filePath : String) (root : Tree) : List TypeSummary :=
  (root.walk.filter fun n =>
    v.classTypes.contains n.kind && n.givenName?.isSome && isTestClass v n).map
      (TypeSummary.ofTree v filePath)

end SyntaxForest
