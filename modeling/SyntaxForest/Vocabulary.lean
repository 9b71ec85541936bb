import SyntaxForest.Text.Split
import SyntaxForest.Value

/-!
# Vocabularies

The inventories are drawn from trees of any dialect. A vocabulary says which
categories are declarations in a dialect, which are calls and suspension points,
and which names mark asynchronous methods and tests.
-/

namespace SyntaxForest

/-- **The vocabulary of a dialect.** -/
structure Vocabulary where
  language : String
  /-- Declarations that are like classes. -/
  classTypes : List String := []
  interfaceTypes : List String := []
  enumTypes : List String := []
  methodTypes : List String := []
  propertyTypes : List String := []
  /-- Callable scopes inside a method, which are not part of its own body. -/
  scopeTypes : List String := []
  invocationTypes : List String := []
  /-- Suspension points. -/
  awaitTypes : List String := []
  /-- Nodes that are suspension points if they are marked as awaited. -/
  awaitFlagTypes : List String := []
  /-- Members that block, when called without arguments, until a result is
  there. -/
  suspensionMembers : List String := []
  asyncModifiers : List String := []
  asyncReturnTypes : List String := []
  /-- Members that go on without the caller's context. -/
  contextFreeMembers : List String := []
  /-- The argument that such a member has to be called with, if any will not do. -/
  contextFreeArgument : Option String := none
  argumentListTypes : List String := []
  /-- Nodes around a single argument. -/
  argumentTypes : List String := []
  /-- Types whose members wait for several operations. -/
  joinReceivers : List String := []
  whenAllMembers : List String := []
  whenAnyMembers : List String := []
  testAttributes : List String := []
  deriving Repr, Inhabited

namespace Vocabulary

/-- Declarations that open a scope of members. -/
def typeDeclarationTypes (v : Vocabulary) : List String :=
  v.classTypes ++ v.interfaceTypes ++ v.enumTypes

/-- The same vocabulary for another language. -/
def forLanguage (v : Vocabulary) (language : String) : Vocabulary := { v with language }

/-- The vocabulary of C#. -/
def csharp : Vocabulary where
  language := "csharp"
  classTypes :=
    ["ClassDeclaration", "StructDeclaration", "RecordDeclaration", "RecordStructDeclaration"]
  interfaceTypes := ["InterfaceDeclaration"]
  enumTypes := ["EnumDeclaration"]
  methodTypes := ["MethodDeclaration"]
  propertyTypes := ["PropertyDeclaration"]
  scopeTypes := ["LambdaExpression", "AnonymousMethodExpression", "LocalFunctionStatement"]
  invocationTypes := ["InvocationExpression"]
  awaitTypes := ["AwaitExpression"]
  awaitFlagTypes := ["ForeachStatement", "UsingStatement", "LocalDeclarationStatement"]
  asyncModifiers := ["async"]
  asyncReturnTypes := ["Task", "ValueTask", "IAsyncEnumerable"]
  contextFreeMembers := ["ConfigureAwait"]
  contextFreeArgument := some "false"
  argumentListTypes := ["ArgumentList"]
  argumentTypes := ["Argument"]
  joinReceivers := ["Task", "ValueTask"]
  whenAllMembers := ["WhenAll"]
  whenAnyMembers := ["WhenAny"]
  testAttributes :=
    ["TestClass", "TestFixture", "TestMethod", "Fact", "Theory", "Test", "TestCase"]

/-- The vocabulary of Java. -/
def java : Vocabulary where
  language := "java"
  classTypes := ["ClassDeclaration", "RecordDeclaration"]
  interfaceTypes := ["InterfaceDeclaration", "AnnotationTypeDeclaration"]
  enumTypes := ["EnumDeclaration"]
  methodTypes := ["MethodDeclaration"]
  scopeTypes := ["LambdaExpression"]
  invocationTypes := ["MethodInvocation"]
  suspensionMembers := ["join", "get"]
  asyncReturnTypes := ["CompletableFuture", "CompletionStage", "Future", "ListenableFuture"]
  contextFreeMembers :=
    ["thenApplyAsync", "thenAcceptAsync", "thenRunAsync", "thenComposeAsync",
      "thenCombineAsync", "whenCompleteAsync", "handleAsync"]
  argumentListTypes := ["ArgumentList"]
  joinReceivers := ["CompletableFuture"]
  whenAllMembers := ["allOf"]
  whenAnyMembers := ["anyOf"]
  testAttributes := ["Test", "ParameterizedTest", "RepeatedTest", "TestFactory"]

/-- The vocabulary of Razor templates: that of the code in them. -/
def razor : Vocabulary := csharp.forLanguage "razor"


/-- **A vocabulary as a record**, with sorted sets. -/
def toValue (v : Vocabulary) : Value :=
  let set (names : List String) : Value := .texts (Text.sortedSet names)
  .record
    [("language", .text v.language),
      ("class_types", set v.classTypes),
      ("interface_types", set v.interfaceTypes),
      ("enum_types", set v.enumTypes),
      ("method_types", set v.methodTypes),
      ("property_types", set v.propertyTypes),
      ("scope_types", set v.scopeTypes),
      ("invocation_types", set v.invocationTypes),
      ("await_types", set v.awaitTypes),
      ("await_flag_types", set v.awaitFlagTypes),
      ("suspension_members", set v.suspensionMembers),
      ("async_modifiers", set v.asyncModifiers),
      ("async_return_types", set v.asyncReturnTypes),
      ("context_free_members", set v.contextFreeMembers),
      ("context_free_argument", .optionText v.contextFreeArgument),
      ("argument_list_types", set v.argumentListTypes),
      ("argument_types", set v.argumentTypes),
      ("join_receivers", set v.joinReceivers),
      ("when_all_members", set v.whenAllMembers),
      ("when_any_members", set v.whenAnyMembers),
      ("test_attributes", set v.testAttributes)]

end Vocabulary

/-! ## Names of types and attributes -/

/-- **The simple name of a type**: without generic arguments, a question mark at
the end, and the namespace in front. -/
def baseTypeName (type : String) : String :=
  let head := Text.trim (Text.beforeFirst '<' type)
  Text.afterLast '.' (Text.trim (Text.trimRightBy (· == '?') head))

/-- **The simple name of an attribute**: that of the type, without a leading `@`
and without the suffix `Attribute`, unless that is all there is. -/
def attributeBaseName (text : String) : String :=
  let name := baseTypeName (String.ofList (text.toList.dropWhile (· == '@')))
  match Text.dropFront? "Attribute".toList.reverse name.toList.reverse with
  | some rest => if rest.isEmpty then name else String.ofList rest.reverse
  | none => name

end SyntaxForest
