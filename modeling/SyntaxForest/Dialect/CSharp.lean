import SyntaxForest.ParseTree.Conversion

/-!
# What C# nodes tell

Declarations tell their names, modifiers, base types and attributes, methods
their return types, calls their member and receiver. A list of names is written
as one text, with commas between the names.
-/

namespace SyntaxForest.Dialect.CSharp

/-- A text as a property's value. -/
def textValue (s : Option String) : Option Scalar := s.map .text

/-- Names joined with `sep`; no names are no value. -/
def joined (sep : String) (names : List String) : Option String :=
  if names.isEmpty then none else some (Text.join sep names)

/-- Kinds of type declarations. -/
def typeDeclarations : List String :=
  ["class_declaration", "struct_declaration", "record_declaration",
    "record_struct_declaration", "interface_declaration", "enum_declaration"]

/-- Statements that can be awaited. -/
def awaitableStatements : List String :=
  ["foreach_statement", "using_statement", "local_declaration_statement"]

/-- Nodes that tell nothing but their name. -/
def namedOnly : List String :=
  ["namespace_declaration", "file_scoped_namespace_declaration", "enum_member_declaration",
    "attribute", "parameter"]

/-- The modifiers of a declaration. -/
def modifiers (t : ParseTree) (src : Bytes) : Option String :=
  joined " " ((t.childrenOfKind ["modifier"]).map (·.text src))

/-- The names of the attributes in a declaration's attribute lists. -/
def attributeNames (t : ParseTree) (src : Bytes) : List String :=
  (t.childrenOfKind ["attribute_list"]).flatMap fun list =>
    (list.childrenOfKind ["attribute"]).filterMap fun a =>
      (a.fieldText? "name" src).filter (· != "")

/-- The attributes of a declaration. -/
def attributes (t : ParseTree) (src : Bytes) : Option String :=
  joined ", " (attributeNames t src)

/-- The types in the first base list that lists any. -/
def baseTypeNames (t : ParseTree) (src : Bytes) : List String :=
  ((t.childrenOfKind ["base_list"]).find? fun l => !l.namedChildren.isEmpty).elim []
    fun l => l.namedChildren.map (·.text src)

/-- The base types of a declaration. -/
def baseTypes (t : ParseTree) (src : Bytes) : Option String := joined ", " (baseTypeNames t src)

/-- The identifier of a name, without generic arguments. -/
def simpleName (t : ParseTree) (src : Bytes) : String :=
  match t.namedChildren with
  | first :: _ => if t.kind = "generic_name" then first.text src else t.text src
  | [] => t.text src

/-- The kinds of a property's accessors: their names, or else their tokens. -/
def accessorKinds (t : ParseTree) (src : Bytes) : List String :=
  (t.childrenOfKind ["accessor_list"]).flatMap fun list =>
    (list.childrenOfKind ["accessor_declaration"]).flatMap fun a =>
      match a.fieldText? "name" src with
      | some name => [name]
      | none => (a.children.filter (!·.head.named)).map (·.kind)

/-- Whether some modifier is `async`. -/
def isAsync (t : ParseTree) (src : Bytes) : Bool :=
  (Text.words ((modifiers t src).getD "")).contains "async"

/-- What a call tells: how many arguments, which member, and of what. -/
def describeCall (t : ParseTree) (src : Bytes) : List (String × Option Scalar) :=
  let count := ((t.field? "arguments").map fun a => (a.childrenOfKind ["argument"]).length).getD 0
  let counted := ("argument_count", some (Scalar.nat count))
  match t.field? "function" with
  | none => [counted]
  | some f =>
    if f.kind = "member_access_expression" then
      [counted, ("receiver", textValue (f.fieldText? "expression" src)),
        ("member_name", (f.field? "name").map fun n => .text (simpleName n src))]
    else if f.kind = "identifier" ∨ f.kind = "generic_name" then
      [counted, ("member_name", some (.text (simpleName f src)))]
    else [counted]

/-- The return type of a method, under whichever field the grammar has it. -/
def returnType (t : ParseTree) (src : Bytes) : Option String :=
  match t.fieldText? "returns" src with
  | some "" | none => t.fieldText? "type" src
  | some s => some s

/-- **What a node of C# tells.** -/
def describe : Describe := fun t src =>
  let kind := t.kind
  let name := ("name", textValue (t.fieldText? "name" src))
  let mods := ("modifiers", textValue (modifiers t src))
  let attrs := ("attributes", textValue (attributes t src))
  if typeDeclarations.contains kind then
    [name, mods, ("base_types", textValue (baseTypes t src)), attrs]
  else if kind = "method_declaration" ∨ kind = "local_function_statement" then
    [name, mods, ("return_type", textValue (returnType t src)),
      ("is_async", some (.bool (isAsync t src))), attrs]
  else if kind = "constructor_declaration" then [name, mods, attrs]
  else if kind = "property_declaration" then
    let accessors := accessorKinds t src
    [name, ("property_type", textValue (t.fieldText? "type" src)), mods, attrs,
      ("has_getter", some (.bool (accessors.contains "get"))),
      ("has_setter", some (.bool (accessors.contains "set" || accessors.contains "init")))]
  else if kind = "field_declaration" ∨ kind = "event_field_declaration" then [mods, attrs]
  else if kind = "lambda_expression" then
    [("is_async", some (.bool (t.hasToken "async" || isAsync t src)))]
  else if awaitableStatements.contains kind then
    [("is_await", some (.bool (t.hasToken "await")))]
  else if kind = "invocation_expression" then describeCall t src
  else if kind = "using_directive" then
    let names := t.namedChildren
    [("namespace", names.getLast?.map fun n => .text (n.text src)),
      ("alias", if 1 < names.length then textValue (t.fieldText? "name" src) else none),
      ("is_static", some (.bool (t.hasToken "static")))]
  else if namedOnly.contains kind then [name]
  else if kind = "variable_declarator" then
    match t.fieldText? "name" src with
    | some s => [("name", some (.text s))]
    | none => [("name", textValue (t.childText? "identifier" src))]
  else []

end SyntaxForest.Dialect.CSharp
