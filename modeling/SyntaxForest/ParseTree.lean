import SyntaxForest.Bytes
import SyntaxForest.Text.Utf8

/-!
# Parse trees

What a grammar's parser makes of a source: a concrete tree with a node for every
token, each with the bytes and the points it covers. Tokens that are spelled out
in the grammar, such as punctuation, are *anonymous*; all others are *named*.
Where the source is faulty, a node is an *error* that covers what could not be
read, or is *missing*, put in where the grammar needs it.
-/

namespace SyntaxForest

/-- A place in a source: a row from zero, and a column in bytes. -/
structure Point where
  row : Nat
  column : Nat
  deriving DecidableEq, Repr, Inhabited

/-- **One node of a parse tree**, without its children. -/
structure ParseNode where
  kind : String
  named : Bool
  missing : Bool
  error : Bool
  start : Nat
  stop : Nat
  startPoint : Point
  stopPoint : Point
  /-- The places among the children at which the fields are found. -/
  fields : List (String × Nat)
  deriving Repr, Inhabited

/-- **A parse tree.** -/
inductive ParseTree
  | node (head : ParseNode) (children : List ParseTree)
  deriving Repr, Inhabited

namespace ParseTree

/-- The root without its children. -/
def head : ParseTree → ParseNode
  | node h _ => h

/-- All children, the anonymous ones included. -/
def children : ParseTree → List ParseTree
  | node _ c => c

/-- The kind of the root. -/
abbrev kind (t : ParseTree) : String := t.head.kind

/-- The named children. -/
def namedChildren (t : ParseTree) : List ParseTree := t.children.filter (·.head.named)

/-- The child that a field names. -/
def field? (t : ParseTree) (name : String) : Option ParseTree :=
  (t.head.fields.lookup name).bind fun i => t.children[i]?

/-- The children of some kinds. -/
def childrenOfKind (t : ParseTree) (kinds : List String) : List ParseTree :=
  t.children.filter fun c => kinds.contains c.kind

/-- Whether a child is of a kind. -/
def hasToken (t : ParseTree) (kind : String) : Bool := t.children.any (·.kind == kind)

/-- **The text that a node covers.** -/
def text (t : ParseTree) (src : Bytes) : String :=
  Text.Utf8.decodeLenient (src.slice t.head.start t.head.stop)

/-- The text of a field. -/
def fieldText? (t : ParseTree) (name : String) (src : Bytes) : Option String :=
  (t.field? name).map (·.text src)

/-- The text of the first child of a kind. -/
def childText? (t : ParseTree) (kind : String) (src : Bytes) : Option String :=
  (t.childrenOfKind [kind]).head?.map (·.text src)

end ParseTree

/-- Why the parser of a grammar cannot be loaded. -/
inductive LoadProblem
  /-- The parsers are not installed. -/
  | notInstalled
  /-- There is none for this grammar. -/
  | noLibrary
  deriving DecidableEq, Repr

/-- The wording of a problem. -/
def LoadProblem.message (grammar : String) : LoadProblem → String
  | .notInstalled => "tree-sitter-language-pack not installed"
  | .noLibrary =>
    "Failed to initialize parser for " ++ grammar
      ++ ": Could not find language library for " ++ grammar

/-- **The parsers at hand**: whether the parser of a grammar can be loaded, and
the tree it makes of a source. -/
structure Grammars where
  problem? : String → Option LoadProblem
  tree? : String → Bytes → Option ParseTree

/-- Whether the parser of a grammar can be loaded. -/
def Grammars.available (g : Grammars) (grammar : String) : Bool := (g.problem? grammar).isNone

end SyntaxForest
