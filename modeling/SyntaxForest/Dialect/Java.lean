import SyntaxForest.Dialect.CSharp

/-!
# What Java nodes tell

As in C#, declarations tell their names, modifiers, base types and annotations,
and calls their member and receiver. Modifiers and annotations stand together
under one node; base types stand in up to three clauses.
-/

namespace SyntaxForest.Dialect.Java

open CSharp (textValue joined)

/-- Kinds of type declarations. -/
def typeDeclarations : List String :=
  ["class_declaration", "interface_declaration", "enum_declaration", "record_declaration",
    "annotation_type_declaration"]

/-- Kinds of annotations. -/
def annotationKinds : List String := ["marker_annotation", "annotation"]

/-- The node that holds a declaration's modifiers and annotations. -/
def modifierNode? (t : ParseTree) : Option ParseTree := (t.childrenOfKind ["modifiers"]).head?

/-- The modifiers of a declaration: the tokens of its modifier node. -/
def modifiers (t : ParseTree) : Option String :=
  (modifierNode? t).bind fun m =>
    joined " " ((m.children.filter (!·.head.named)).map (·.kind))

/-- The names of a declaration's annotations. -/
def annotationNames (t : ParseTree) (src : Bytes) : List String :=
  (modifierNode? t).elim [] fun m =>
    (m.childrenOfKind annotationKinds).filterMap fun a =>
      (a.fieldText? "name" src).filter (· != "")

/-- The annotations of a declaration. -/
def annotations (t : ParseTree) (src : Bytes) : Option String :=
  joined ", " (annotationNames t src)

/-- The types in a clause, those of a type list one by one. -/
def typeNames (clause : ParseTree) (src : Bytes) : List String :=
  clause.namedChildren.flatMap fun c =>
    if c.kind = "type_list" then c.namedChildren.map (·.text src) else [c.text src]

/-- The types that a declaration extends or implements. -/
def baseTypeNames (t : ParseTree) (src : Bytes) : List String :=
  let clauses := (t.field? "superclass").toList ++ (t.field? "interfaces").toList
    ++ t.childrenOfKind ["extends_interfaces"]
  clauses.flatMap (typeNames · src)

/-- **What a node of Java tells.** -/
def describe : Describe := fun t src =>
  let kind := t.kind
  let name := ("name", textValue (t.fieldText? "name" src))
  let mods := ("modifiers", textValue (modifiers t))
  let attrs := ("attributes", textValue (annotations t src))
  if typeDeclarations.contains kind then
    [name, mods, ("base_types", textValue (joined ", " (baseTypeNames t src))), attrs]
  else if kind = "method_declaration" then
    [name, mods, ("return_type", textValue (t.fieldText? "type" src)), attrs]
  else if kind = "constructor_declaration" ∨ kind = "compact_constructor_declaration" then
    [name, mods, attrs]
  else if kind = "field_declaration" then [mods, attrs]
  else if kind = "method_invocation" then
    let count := ((t.field? "arguments").map (·.namedChildren.length)).getD 0
    [("member_name", textValue (t.fieldText? "name" src)),
      ("receiver", textValue (t.fieldText? "object" src)),
      ("argument_count", some (.nat count))]
  else if kind = "import_declaration" then
    let names := t.namedChildren.filter (·.kind != "asterisk")
    [("namespace", names.head?.map fun n => .text (n.text src)),
      ("is_static", some (.bool (t.hasToken "static"))),
      ("is_wildcard", some (.bool (t.hasToken "asterisk")))]
  else if kind = "package_declaration" then
    [("name", t.namedChildren.getLast?.map fun n => .text (n.text src))]
  else if ["variable_declarator", "formal_parameter", "enum_constant"].contains kind
      || annotationKinds.contains kind then [name]
  else []

end SyntaxForest.Dialect.Java
