import Mathlib.Data.List.Forall2
import SyntaxForest.Analysis.Analyzer
import SyntaxForest.Proofs.Template.Kept
import SyntaxForest.Proofs.Text.Joining

/-!
# The lists that declarations carry

A declaration of C# or Java lists its base types and its attributes. The conversion keeps each
list as one property, and the inventories cut the property again. What arrives in a summary, and
what is looked at for a test attribute, are therefore the *entries* of the listed texts
(`declaredLists`), and these are the listed texts just where every one is whole: no type or
attribute may hold a comma, as one with several type arguments does.
-/

namespace SyntaxForest

open Conversion

/-! ## Properties that a dialect tells -/

namespace Properties

theorem get?_foldl_set? {described : List (String × Option Scalar)} {key : String}
    (h : (described.map Prod.fst).Nodup) (props : Properties) :
    (described.foldl (fun props (k, v) => props.set? k v) props).get? key
      = ((described.lookup key).join).or (props.get? key) := by
  induction described generalizing props with
  | nil => rfl
  | cons p rest ih =>
    obtain ⟨k, v⟩ := p
    rw [List.map_cons, List.nodup_cons] at h
    rw [List.foldl_cons, ih h.2, List.lookup_cons]
    by_cases hk : key = k
    · subst hk
      have hnone : rest.lookup key = none := List.lookup_eq_none_iff.mpr fun p hp =>
        bne_iff_ne.mpr fun heq => h.1 (List.mem_map.mpr ⟨p, hp, heq.symm⟩)
      rw [hnone, beq_self_eq_true]
      cases v with
      | none => rfl
      | some v => exact get?_set_self props key v
    · rw [beq_false_of_ne hk, get?_set?_of_ne (Ne.symm hk)]

end Properties

namespace Conversion

variable {describe : Describe} {src : Bytes} {shift : Shift} {key : String}

/-- Whether a property is one that every node may have, in any dialect. -/
def isCommonKey (key : String) : Bool := isPositionKey key || ["is_missing", "text"].contains key

theorem get?_spanProperties (h : isPositionKey key = false) (n : ParseNode) :
    (spanProperties n shift).get? key = none := by
  simp only [isPositionKey, List.contains_cons, List.contains_nil, Bool.or_false,
    Bool.or_eq_false_iff] at h
  obtain ⟨h1, h2, h3, h4, h5, h6⟩ := h
  simp only [Properties.get?, spanProperties, List.lookup_cons, List.lookup_nil, h1, h2, h3, h4,
    h5, h6]

/-- **A property of a converted node** is what the dialect tells, unless it is one that every
node may have. -/
theorem get?_converted (hkey : isCommonKey key = false) {t : ParseTree}
    (h : ((describe t src).map Prod.fst).Nodup) :
    (converted describe src shift t).get? key = ((describe t src).lookup key).join := by
  rw [isCommonKey, Bool.or_eq_false_iff] at hkey
  obtain ⟨hplace, hcommon⟩ := hkey
  have hmissing : "is_missing" ≠ key := by
    rintro rfl
    cases hcommon
  have htext : "text" ≠ key := by
    rintro rfl
    cases hcommon
  have hnode : (nodeProperties describe src shift t).get? key
      = ((describe t src).lookup key).join := by
    unfold nodeProperties
    dsimp only
    split
    · rw [Properties.get?_set_of_ne hmissing, Properties.get?_foldl_set? h,
        get?_spanProperties hplace, Option.or_none]
    · rw [Properties.get?_foldl_set? h, get?_spanProperties hplace, Option.or_none]
  cases t with
  | node head children =>
    unfold converted below
    dsimp only [Tree.get?, Tree.properties]
    split
    · rw [Properties.get?_set_of_ne htext, hnode]
    · exact hnode

end Conversion

namespace Dialect

/-- **The dialects whose declarations list base types and attributes.** -/
inductive Listing
  | csharp
  | java
  deriving DecidableEq, Repr

namespace Listing

/-- What the nodes of the dialect tell. -/
def describe : Listing → Describe
  | csharp => CSharp.describe
  | java => Java.describe

/-- The vocabulary of the dialect. -/
def vocabulary : Listing → Vocabulary
  | csharp => .csharp
  | java => .java

/-- The category of the roots. -/
def rootKind : Listing → String
  | csharp => Template.codeRootKind
  | java => "Program"

/-- Kinds of class-like declarations. -/
def classKinds : Listing → List String
  | csharp =>
    ["class_declaration", "struct_declaration", "record_declaration", "record_struct_declaration"]
  | java => ["class_declaration", "record_declaration"]

/-- The base types that a declaration lists. -/
def baseTypeNames : Listing → ParseTree → Bytes → List String
  | csharp => CSharp.baseTypeNames
  | java => Java.baseTypeNames

/-- The names of the attributes that a declaration lists. -/
def attributeNames : Listing → ParseTree → Bytes → List String
  | csharp => CSharp.attributeNames
  | java => Java.annotationNames

/-- The modifiers of a declaration. -/
def modifiers : Listing → ParseTree → Bytes → Option String
  | csharp => CSharp.modifiers
  | java => fun t _ => Java.modifiers t

/-- Kinds of nodes that the dialect tells anything of. -/
def toldKinds : Listing → List String
  | csharp => CSharp.typeDeclarations ++ ["method_declaration", "local_function_statement",
      "constructor_declaration", "property_declaration", "field_declaration",
      "event_field_declaration", "lambda_expression"] ++ CSharp.awaitableStatements
      ++ ["invocation_expression", "using_directive"] ++ CSharp.namedOnly ++ ["variable_declarator"]
  | java => Java.typeDeclarations ++ ["method_declaration", "constructor_declaration",
      "compact_constructor_declaration", "field_declaration", "method_invocation",
      "import_declaration", "package_declaration", "variable_declarator", "formal_parameter",
      "enum_constant"] ++ Java.annotationKinds

variable (d : Listing) {n : ParseTree} {src : Bytes}

/-- **Of other kinds nothing is told.** -/
theorem describe_eq_nil (h : n.kind ∉ d.toldKinds) : d.describe n src = [] := by
  cases d with
  | csharp =>
    simp [toldKinds, CSharp.typeDeclarations, CSharp.awaitableStatements, CSharp.namedOnly] at h
    simp [describe, CSharp.describe, CSharp.typeDeclarations, CSharp.awaitableStatements,
      CSharp.namedOnly, h]
  | java =>
    simp [toldKinds, Java.typeDeclarations, Java.annotationKinds] at h
    simp [describe, Java.describe, Java.typeDeclarations, Java.annotationKinds, h]

/-- What a class-like declaration tells. -/
theorem describe_class (h : n.kind ∈ d.classKinds) : d.describe n src
    = [("name", CSharp.textValue (n.fieldText? "name" src)),
      ("modifiers", CSharp.textValue (d.modifiers n src)),
      ("base_types", CSharp.textValue (CSharp.joined ", " (d.baseTypeNames n src))),
      ("attributes", CSharp.textValue (CSharp.joined ", " (d.attributeNames n src)))] := by
  cases d with
  | csharp =>
    have hkind : CSharp.typeDeclarations.contains n.kind = true := by
      simp only [classKinds, List.mem_cons, List.not_mem_nil, or_false] at h
      rcases h with h | h | h | h <;> rw [h] <;> rfl
    simp only [describe, CSharp.describe]
    rw [if_pos hkind]
    rfl
  | java =>
    have hkind : Java.typeDeclarations.contains n.kind = true := by
      simp only [classKinds, List.mem_cons, List.not_mem_nil, or_false] at h
      rcases h with h | h <;> rw [h] <;> rfl
    simp only [describe, Java.describe]
    rw [if_pos hkind]
    rfl

theorem classKinds_subset : d.classKinds ⊆ d.toldKinds := by
  cases d <;> decide

/-- A category is class-like just if its kind is. -/
theorem classLike_iff : ∀ k ∈ d.toldKinds,
    d.vocabulary.declarationKind? (categoryOf k) = some .classLike ↔ k ∈ d.classKinds := by
  cases d <;> decide +kernel

/-- Kinds of declarations whose attributes are looked at: classes and methods. -/
def attributedKinds : List String := d.classKinds ++ ["method_declaration"]

/-- **What an attributed declaration tells** has no key twice, and its attributes among it. -/
theorem describe_attributed (h : n.kind ∈ d.attributedKinds) :
    ((d.describe n src).map Prod.fst).Nodup ∧ (d.describe n src).lookup "attributes"
      = some (CSharp.textValue (CSharp.joined ", " (d.attributeNames n src))) := by
  rw [attributedKinds, List.mem_append, List.mem_singleton] at h
  rcases h with h | h
  · rw [describe_class d h]
    exact ⟨show ["name", "modifiers", "base_types", "attributes"].Nodup by decide, rfl⟩
  · cases d with
    | csharp =>
      have hnot : ¬CSharp.typeDeclarations.contains n.kind = true := by
        rw [h]
        decide
      simp only [describe, CSharp.describe]
      rw [if_neg hnot, if_pos (.inl h)]
      exact ⟨show ["name", "modifiers", "return_type", "is_async", "attributes"].Nodup by decide,
        rfl⟩
    | java =>
      have hnot : ¬Java.typeDeclarations.contains n.kind = true := by
        rw [h]
        decide
      simp only [describe, Java.describe]
      rw [if_neg hnot, if_pos h]
      exact ⟨show ["name", "modifiers", "return_type", "attributes"].Nodup by decide, rfl⟩

theorem rootKind_not_classLike : d.vocabulary.declarationKind? d.rootKind ≠ some .classLike := by
  cases d <;> decide +kernel

/-! ## What is read off a converted declaration -/

/-- The name of a declaration, unless it has none or it is empty. -/
def name? (n : ParseTree) (src : Bytes) : Option String :=
  (n.fieldText? "name" src).filter (· != "")

/-- Whether a node is a class-like declaration with a name. -/
def isDeclared (src : Bytes) (n : ParseTree) : Bool :=
  d.classKinds.contains n.kind && (name? n src).isSome

/-- **The named class-like declarations** below a node, in pre-order. -/
def declared (t : ParseTree) (src : Bytes) : List ParseTree := t.keptBelow.filter (d.isDeclared src)

theorem splitProperty_joined (names : List String) :
    splitProperty "," (CSharp.textValue (CSharp.joined ", " names))
      = names.flatMap (splitList ",") := by
  cases names with
  | nil => rfl
  | cons s rest => exact splitList_join (s :: rest)

variable {shift : Shift}

theorem get?_class {key : String} {v : Option Scalar} (h : n.kind ∈ d.classKinds)
    (hkey : isCommonKey key = false) (hv : (d.describe n src).lookup key = some v) :
    (converted d.describe src shift n).get? key = v := by
  rw [get?_converted hkey (describe_attributed d (List.mem_append_left _ h)).1, hv]
  rfl

theorem name?_class (h : n.kind ∈ d.classKinds) :
    (converted d.describe src shift n).name? = n.fieldText? "name" src := by
  have hname : (converted d.describe src shift n).get? "name"
      = CSharp.textValue (n.fieldText? "name" src) :=
    get?_class d h (by decide) (by rw [describe_class d h]; rfl)
  rw [Tree.name?, hname]
  cases n.fieldText? "name" src <;> rfl

theorem givenName?_class (h : n.kind ∈ d.classKinds) :
    (converted d.describe src shift n).givenName? = name? n src := by
  rw [Tree.givenName?, name?_class d h, name?]

theorem splitProperty_baseTypes (h : n.kind ∈ d.classKinds) :
    splitProperty "," ((converted d.describe src shift n).get? "base_types")
      = (d.baseTypeNames n src).flatMap (splitList ",") := by
  have hbase : (converted d.describe src shift n).get? "base_types"
      = CSharp.textValue (CSharp.joined ", " (d.baseTypeNames n src)) :=
    get?_class d h (by decide) (by rw [describe_class d h]; rfl)
  rw [hbase, splitProperty_joined]

/-- **Which nodes are summarised**: those of class-like declarations that have a name. -/
theorem classLike_converted :
    (d.vocabulary.declarationKind? (converted d.describe src shift n).kind == some .classLike
        && (converted d.describe src shift n).givenName?.isSome)
      = d.isDeclared src n := by
  rw [converted_kind, isDeclared]
  by_cases htold : n.kind ∈ d.toldKinds
  · by_cases hclass : n.kind ∈ d.classKinds
    · rw [givenName?_class d hclass, (classLike_iff d _ htold).mpr hclass,
        List.contains_iff_mem.mpr hclass]
      rfl
    · have hother :
          (d.vocabulary.declarationKind? (categoryOf n.kind) == some .classLike) = false :=
        beq_eq_false_iff_ne.mpr fun h => hclass ((classLike_iff d _ htold).mp h)
      have hnot : d.classKinds.contains n.kind = false :=
        Bool.eq_false_iff.mpr fun h => hclass (List.contains_iff_mem.mp h)
      rw [hother, hnot, Bool.false_and, Bool.false_and]
  · -- a node of which nothing is told has no name
    have hnil : d.describe n src = [] := describe_eq_nil d htold
    have hname : (converted d.describe src shift n).get? "name" = none := by
      rw [get?_converted (by decide) (by rw [hnil]; exact List.nodup_nil), hnil]
      rfl
    have hnot : d.classKinds.contains n.kind = false :=
      Bool.eq_false_iff.mpr fun h => htold (classKinds_subset d (List.contains_iff_mem.mp h))
    rw [Tree.givenName?, Tree.name?, hname, hnot]
    exact Bool.and_false _

theorem splitProperty_attributes (h : n.kind ∈ d.attributedKinds) :
    splitProperty "," ((converted d.describe src shift n).get? "attributes")
      = (d.attributeNames n src).flatMap (splitList ",") := by
  obtain ⟨hkeys, hattributes⟩ := describe_attributed d h
  rw [get?_converted (by decide) hkeys, hattributes]
  exact splitProperty_joined _

theorem walk_convert (t : ParseTree) (kind : Option String) :
    (t.convert src d.describe shift kind).root.walk
      = (t.convert src d.describe shift kind).root
        :: t.keptBelow.map (converted d.describe src shift) := by
  rw [Tree.walk_eq, Tree.preorder_eq, convert_children, ParseTree.keptBelow_eq]
  exact congrArg _ (preorderAll_converted t.children)

theorem descendants_convert (t : ParseTree) (kind : Option String) :
    (t.convert src d.describe shift kind).root.descendants
      = t.keptBelow.map (converted d.describe src shift) := by
  rw [Tree.descendants, walk_convert]
  rfl

/-- **The classes of a converted tree** are the named class-like declarations. -/
theorem classDetails_convert (t : ParseTree) (path : String) :
    (Declarations.ofTree d.vocabulary path
        (t.convert src d.describe shift (some d.rootKind)).root).classDetails
      = (d.declared t src).map fun n =>
        TypeSummary.ofTree d.vocabulary path (converted d.describe src shift n) := by
  have hroot : (t.convert src d.describe shift (some d.rootKind)).root.kind = d.rootKind := by
    cases d <;> rfl
  have hnot : (d.vocabulary.declarationKind? d.rootKind == some .classLike) = false :=
    beq_eq_false_iff_ne.mpr (rootKind_not_classLike d)
  simp only [Declarations.ofTree, List.filter_filter]
  rw [walk_convert, List.filter_cons_of_neg (by rw [hroot, hnot]; exact Bool.false_ne_true),
    List.filter_map, List.map_map, declared]
  refine congrArg _ (List.filter_congr fun n _ => ?_)
  exact classLike_converted d

end Listing

open Listing

/-- **The lists of declarations arrive in entries.** Of a class-like declaration the summary has
the entries of the base types that the declaration lists, and of any declaration of a class or a
method the entries of its attributes are looked at. These are the listed texts themselves if and
only if every one of them is whole. -/
theorem declaredLists (d : Listing) (t : ParseTree) (src : Bytes) (shift : Shift)
    (path : String) :
    let root := (t.convert src d.describe shift (some d.rootKind)).root
    List.Forall₂
        (fun n summary => name? n src = some summary.name
          ∧ summary.baseTypes = (d.baseTypeNames n src).flatMap (splitList ",")
          ∧ (summary.baseTypes = d.baseTypeNames n src
            ↔ ∀ type ∈ d.baseTypeNames n src, IsWhole type))
        (d.declared t src) (Declarations.ofTree d.vocabulary path root).classDetails
      ∧ List.Forall₂
        (fun n node => n.kind ∈ d.attributedKinds →
          splitProperty "," (node.get? "attributes")
              = (d.attributeNames n src).flatMap (splitList ",")
            ∧ (splitProperty "," (node.get? "attributes") = d.attributeNames n src
              ↔ ∀ name ∈ d.attributeNames n src, IsWhole name)
            ∧ hasTestAttribute d.vocabulary node
              = ((d.attributeNames n src).flatMap (splitList ",")).any fun name =>
                d.vocabulary.testAttributes.contains (attributeBaseName name))
        t.keptBelow root.descendants := by
  dsimp only
  rw [classDetails_convert, descendants_convert, List.forall₂_map_right_iff,
    List.forall₂_map_right_iff, List.forall₂_same, List.forall₂_same]
  refine ⟨fun n hn => ?_, fun n _ hkind => ?_⟩
  · obtain ⟨-, hn⟩ := List.mem_filter.mp hn
    rw [isDeclared, Bool.and_eq_true, List.contains_iff_mem] at hn
    obtain ⟨hclass, hname⟩ := hn
    obtain ⟨name, hname⟩ := Option.isSome_iff_exists.mp hname
    have hsummary : (converted d.describe src shift n).name? = some name := by
      rw [name?_class d hclass]
      exact (Option.filter_eq_some_iff.mp hname).1
    have hbase : splitProperty "," ((converted d.describe src shift n).get? "base_types")
        = (d.baseTypeNames n src).flatMap (splitList ",") := splitProperty_baseTypes d hclass
    refine ⟨?_, hbase, ?_⟩
    · rw [hname, TypeSummary.ofTree, hsummary]
      rfl
    · rw [TypeSummary.ofTree, hbase]
      exact flatMap_splitList_eq_iff
  · have hentries : splitProperty "," ((converted d.describe src shift n).get? "attributes")
        = (d.attributeNames n src).flatMap (splitList ",") := splitProperty_attributes d hkind
    rw [hasTestAttribute, hentries]
    exact ⟨rfl, flatMap_splitList_eq_iff, rfl⟩


/-! ### Types and attributes with several type arguments -/

/-- A class with the attribute `Foo<int, Test, int>` and the base type
`Dictionary<string, int>`. -/
def genericSource : Bytes :=
  Bytes.ofText "[Foo<int, Test, int>] class A : Dictionary<string, int> \x7b\x7d"

/-- A named node with fields. -/
def fieldNode (kind : String) (start stop : Nat) (fields : List (String × Nat))
    (children : List ParseTree) : ParseTree :=
  .node ⟨kind, true, false, false, start, stop, default, default, fields⟩ children

/-- The declaration of the class. -/
def genericClass : ParseTree :=
  fieldNode "class_declaration" 0 58 [("name", 1)]
    [fieldNode "attribute_list" 0 21 []
        [fieldNode "attribute" 1 20 [("name", 0)] [fieldNode "generic_name" 1 20 [] []]],
      fieldNode "identifier" 28 29 [] [],
      fieldNode "base_list" 30 55 [] [fieldNode "generic_name" 32 55 [] []],
      fieldNode "declaration_list" 56 58 [] []]

/-- The file that holds the class. -/
def genericTree : ParseTree := fieldNode "compilation_unit" 0 58 [] [genericClass]

/-- The summary of the class and what is looked at for a test attribute. -/
theorem declaredLists_generic :
    let root := (genericTree.convert genericSource CSharp.describe {}
      (some Template.codeRootKind)).root
    genericClass.kind ∈ Listing.csharp.attributedKinds
      ∧ (∃ summary, (Declarations.ofTree .csharp "A.cs" root).classDetails = [summary]
        ∧ summary.baseTypes = ["Dictionary<string", "int>"])
      ∧ ∃ node rest, root.descendants = node :: rest
        ∧ splitProperty "," (node.get? "attributes") = ["Foo<int", "Test", "int>"]
        ∧ hasTestAttribute .csharp node = true := by
  have hkind : genericClass.kind ∈ Listing.csharp.attributedKinds := by decide
  obtain ⟨hclasses, hnodes⟩ := declaredLists .csharp genericTree genericSource {} "A.cs"
  have hdeclared : Listing.csharp.declared genericTree genericSource = [genericClass] := by
    have hself : Listing.csharp.isDeclared genericSource genericClass = true := by decide +kernel
    have hbelow : ∀ n ∈ genericClass.keptBelow, Listing.csharp.classKinds.contains n.kind = false :=
      by decide
    refine (List.filter_cons_of_pos hself).trans (congrArg _ (List.filter_eq_nil_iff.mpr ?_))
    intro n hn
    rw [isDeclared, hbelow n hn]
    exact Bool.false_ne_true
  rw [hdeclared] at hclasses
  obtain ⟨summary, _, ⟨-, hbase, -⟩, hnil, hall⟩ := List.forall₂_cons_left_iff.mp hclasses
  rw [List.forall₂_nil_left_iff.mp hnil] at hall
  have hkept : genericTree.keptBelow = genericClass :: genericClass.keptBelow := rfl
  rw [hkept] at hnodes
  obtain ⟨node, rest, hnode, -, hdescendants⟩ := List.forall₂_cons_left_iff.mp hnodes
  obtain ⟨hentries, -, htest⟩ := hnode hkind
  refine ⟨hkind, ⟨summary, hall, ?_⟩, node, rest, hdescendants, ?_, ?_⟩
  · rw [hbase]
    decide +kernel
  · rw [hentries]
    decide +kernel
  · refine htest.trans ?_
    decide +kernel

/-- **A list that arrives in pieces**: the class lists one base type and one attribute, which is
none of a test's. Its summary has two base types, neither of them the one listed, and it counts
as a test. -/
theorem declaredLists_torn :
    let root := (genericTree.convert genericSource CSharp.describe {}
      (some Template.codeRootKind)).root
    CSharp.baseTypeNames genericClass genericSource = ["Dictionary<string, int>"]
      ∧ (Declarations.ofTree .csharp "A.cs" root).classDetails.map (·.baseTypes)
        = [["Dictionary<string", "int>"]]
      ∧ CSharp.attributeNames genericClass genericSource = ["Foo<int, Test, int>"]
      ∧ Vocabulary.csharp.testAttributes.contains (attributeBaseName "Foo<int, Test, int>") = false
      ∧ (testClasses .csharp "A.cs" root).map (·.name) = ["A"] := by
  decide +kernel

end Dialect

end SyntaxForest
