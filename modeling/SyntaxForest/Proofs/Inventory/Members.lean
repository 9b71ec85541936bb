import Mathlib.Data.List.Basic
import SyntaxForest.Inventory.Declarations
import SyntaxForest.Proofs.Inventory.Scopes

/-!
# Members and their types

A class-like declaration is summarised by a walk below it that does not pass a nested type. Here
its members are told by ancestors (`TypeSummary.ofPlace`): a method or property is listed with the
declaration that is the nearest type above it, whatever other nodes stand between the two, and
whether or not the types between are named or listed themselves. The two agree on every tree
(`members_nearest`), so that no member is listed with two declarations, and the test fixtures are
those classes that carry a test attribute, or are the nearest type above a method that does.

The one condition is on the vocabulary. A category of methods may not be one of properties as
well: a node of it is listed with the methods alone.
-/

namespace SyntaxForest

/-- Whether a node opens a scope of members. -/
def Vocabulary.opensMembers (v : Vocabulary) (t : Tree) : Bool :=
  v.typeDeclarationTypes.contains t.kind

namespace Tree

/-- **The named class-like declarations**, with their places and in pre-order. -/
def classPlaces (v : Vocabulary) (root : Tree) : List (Place × Tree) :=
  root.placed.filter fun x => v.classTypes.contains x.2.kind && x.2.givenName?.isSome

/-- **What has the node at a place as its nearest type.** -/
def membersAt (v : Vocabulary) (root : Tree) (p : Place) : List (Place × Tree) :=
  root.own v.opensMembers p

end Tree

/-- The names of the nodes that are of some categories. -/
def namesAmong (categories : List String) (nodes : List (Tree.Place × Tree)) : List String :=
  (nodes.filter fun x => categories.contains x.2.kind).filterMap fun x => x.2.givenName?

/-- **The summary of a declaration at a place**, with the members whose nearest type it is. -/
def TypeSummary.ofPlace (v : Vocabulary) (filePath : String) (root : Tree)
    (x : Tree.Place × Tree) : TypeSummary where
  name := x.2.name?.getD ""
  filePath
  line := x.2.line
  modifiers := splitProperty " " (x.2.get? "modifiers")
  baseTypes := splitProperty "," (x.2.get? "base_types")
  methods := namesAmong v.methodTypes (root.membersAt v x.1)
  properties := namesAmong v.propertyTypes (root.membersAt v x.1)

/-- **Whether the declaration at a place is a test fixture**: by its own attributes, or by those
of a method whose nearest type it is. -/
def isTestAt (v : Vocabulary) (root : Tree) (x : Tree.Place × Tree) : Bool :=
  hasTestAttribute v x.2 || (root.membersAt v x.1).any fun m =>
    v.methodTypes.contains m.2.kind && hasTestAttribute v m.2

variable {v : Vocabulary} {root t : Tree} {x : Tree.Place × Tree}

theorem Vocabulary.opensMembers_of_class (h : v.classTypes.contains t.kind = true) :
    v.opensMembers t = true := by
  rw [opensMembers, typeDeclarationTypes, List.contains_eq_mem]
  simp [List.contains_iff_mem.mp h]

theorem Tree.mem_classPlaces : x ∈ root.classPlaces v ↔
    root.at? x.1 = some x.2 ∧ v.classTypes.contains x.2.kind = true
      ∧ x.2.givenName?.isSome = true := by
  rw [classPlaces, List.mem_filter, Bool.and_eq_true]
  exact and_congr_left fun _ => Tree.mem_placed

/-- Which nodes are walked through is seen from the nodes without their places. -/
theorem Tree.filter_walk (keep : Tree → Bool) (root : Tree) :
    root.walk.filter keep = (root.placed.filter fun x => keep x.2).map Prod.snd := by
  rw [← Tree.map_snd_placed, List.filter_map]
  rfl

/-- **The members of a declaration** are those whose nearest type it is. -/
theorem Tree.map_snd_membersAt (h : x ∈ root.classPlaces v) :
    (root.membersAt v x.1).map Prod.snd = directMembers v x.2 := by
  obtain ⟨hat, hclass, -⟩ := mem_classPlaces.mp h
  exact map_snd_own hat (Vocabulary.opensMembers_of_class hclass)

theorem memberNames_membersAt (h : x ∈ root.classPlaces v) {keep : String → Bool}
    {categories : List String} (hkeep : ∀ k, keep k = categories.contains k) :
    memberNames (directMembers v x.2) keep = namesAmong categories (root.membersAt v x.1) := by
  rw [memberNames, ← Tree.map_snd_membersAt h, List.filter_map, List.filterMap_map, namesAmong]
  simp only [Function.comp_def, hkeep]

/-- A category of properties is none of methods. -/
theorem not_method_and_property (h : v.methodTypes.Disjoint v.propertyTypes) (k : String) :
    (!v.methodTypes.contains k && v.propertyTypes.contains k) = v.propertyTypes.contains k := by
  cases hk : v.propertyTypes.contains k with
  | false => rw [Bool.and_false]
  | true =>
    have hnot : k ∉ v.methodTypes := fun hm => h hm (List.contains_iff_mem.mp hk)
    simp [hnot]

/-- **The two summaries of a declaration are the same.** -/
theorem TypeSummary.ofTree_eq_ofPlace (filePath : String)
    (hv : v.methodTypes.Disjoint v.propertyTypes) (h : x ∈ root.classPlaces v) :
    TypeSummary.ofTree v filePath x.2 = TypeSummary.ofPlace v filePath root x := by
  unfold ofTree ofPlace
  dsimp only
  rw [memberNames_membersAt h fun _ => rfl,
    memberNames_membersAt h (not_method_and_property hv)]

theorem isTestClass_eq_isTestAt (h : x ∈ root.classPlaces v) :
    isTestClass v x.2 = isTestAt v root x := by
  rw [isTestClass, isTestAt, ← Tree.map_snd_membersAt h, List.any_map]
  rfl

theorem Vocabulary.classLike_iff (v : Vocabulary) (k : String) :
    (v.declarationKind? k == some .classLike) = v.classTypes.contains k := by
  unfold declarationKind?
  split
  · next h => rw [h]; rfl
  · next h =>
    rw [Bool.not_eq_true] at h
    rw [h]
    split_ifs <;> rfl

/-- A node with a name has it. -/
theorem Tree.givenName?_of_isSome (h : t.givenName?.isSome = true) :
    t.givenName? = some (t.name?.getD "") := by
  obtain ⟨name, hname⟩ := Option.isSome_iff_exists.mp h
  rw [hname, (Option.filter_eq_some_iff.mp hname).1, Option.getD_some]

/-- **The class-like declarations that are found**, with their places. -/
theorem Declarations.classNodes_eq (v : Vocabulary) (root : Tree) :
    ((root.walk.filter fun n => n.givenName?.isSome).filter fun n =>
      v.declarationKind? n.kind == some .classLike) = (root.classPlaces v).map Prod.snd := by
  rw [List.filter_filter, Tree.classPlaces, Tree.filter_walk]
  simp only [Vocabulary.classLike_iff]

theorem Declarations.classDetails_eq (v : Vocabulary) (filePath : String) (root : Tree) :
    (ofTree v filePath root).classDetails
      = (root.classPlaces v).map fun x => TypeSummary.ofTree v filePath x.2 := by
  simp only [ofTree, classNodes_eq, List.map_map]
  rfl

theorem Declarations.classes_eq (v : Vocabulary) (filePath : String) (root : Tree) :
    (ofTree v filePath root).classes = (root.classPlaces v).map fun x => x.2.name?.getD "" := by
  simp only [ofTree, classNodes_eq, List.filterMap_map]
  rw [← List.filterMap_eq_map]
  exact List.filterMap_congr fun x hx =>
    Tree.givenName?_of_isSome (Tree.mem_classPlaces.mp hx).2.2

theorem testClasses_eq (v : Vocabulary) (filePath : String) (root : Tree) :
    testClasses v filePath root = ((root.classPlaces v).filter fun x => isTestClass v x.2).map
      fun x => TypeSummary.ofTree v filePath x.2 := by
  have hkeep : ∀ n : Tree, (v.classTypes.contains n.kind && n.givenName?.isSome && isTestClass v n)
      = (isTestClass v n && (v.classTypes.contains n.kind && n.givenName?.isSome)) :=
    fun n => Bool.and_comm ..
  simp only [testClasses, Tree.classPlaces, List.filter_filter, Tree.filter_walk, List.map_map,
    hkeep]
  rfl

theorem Tree.classPlaces_pairwise (v : Vocabulary) (root : Tree) :
    (root.classPlaces v).Pairwise fun a b => a.1 ≠ b.1 :=
  (List.pairwise_map.mp root.nodup_placed).filter _

/-- **Members belong to their nearest type.** The named class-like declarations are summarised in
pre-order, each with those named methods and properties whose nearest type it is. No node is a
member of two of them. The test fixtures are those that carry a test attribute, or are the
nearest type of a method that does, in the same order and with the same summaries. -/
theorem members_nearest (v : Vocabulary) (filePath : String) (root : Tree)
    (hv : v.methodTypes.Disjoint v.propertyTypes) :
    let declared := Declarations.ofTree v filePath root
    let tests := testClasses v filePath root
    declared.classDetails = (root.classPlaces v).map (TypeSummary.ofPlace v filePath root)
      ∧ declared.classes = declared.classDetails.map (·.name)
      ∧ (root.classPlaces v).Pairwise (fun a b =>
        (root.membersAt v a.1).Disjoint (root.membersAt v b.1))
      ∧ tests = ((root.classPlaces v).filter (isTestAt v root)).map
        (TypeSummary.ofPlace v filePath root)
      ∧ tests.Sublist declared.classDetails := by
  have hsummary : ∀ x ∈ root.classPlaces v,
      TypeSummary.ofTree v filePath x.2 = TypeSummary.ofPlace v filePath root x :=
    fun x => TypeSummary.ofTree_eq_ofPlace filePath hv
  have hdetails : (Declarations.ofTree v filePath root).classDetails
      = (root.classPlaces v).map (TypeSummary.ofPlace v filePath root) := by
    rw [Declarations.classDetails_eq]
    exact List.map_congr_left hsummary
  have htests : testClasses v filePath root = ((root.classPlaces v).filter (isTestAt v root)).map
      (TypeSummary.ofPlace v filePath root) := by
    rw [testClasses_eq, List.filter_congr fun x => isTestClass_eq_isTestAt]
    exact List.map_congr_left fun x hx => hsummary x (List.mem_of_mem_filter hx)
  refine ⟨hdetails, ?_, ?_, htests, ?_⟩
  · rw [hdetails, Declarations.classes_eq, List.map_map]
    rfl
  · exact (root.classPlaces_pairwise v).imp fun hne => Tree.disjoint_own hne
  · rw [htests, hdetails]
    exact List.filter_sublist.map _

/-- A class around a block, an interface without a name and a class of tests. -/
def nestedTypes : Tree :=
  let named (kind name : String) (children : List Tree) : Tree :=
    .node kind [("name", .text name)] children
  .node "CompilationUnit" []
    [named "ClassDeclaration" "Outer"
      [.node "Block" []
        [named "MethodDeclaration" "First" [named "MethodDeclaration" "Inner" []],
          .node "InterfaceDeclaration" [] [named "MethodDeclaration" "Hidden" []]],
        named "ClassDeclaration" "Checks"
          [.node "MethodDeclaration" [("attributes", .text "Xunit.FactAttribute")] [],
            named "PropertyDeclaration" "Count" []],
        named "MethodDeclaration" "Last" []]]

/-- The members of the two classes: the method of the interface is neither's. -/
theorem members_nearest_nested :
    Vocabulary.csharp.methodTypes.Disjoint Vocabulary.csharp.propertyTypes
      ∧ (Declarations.ofTree .csharp "A.cs" nestedTypes).classDetails.map
          (fun s => (s.name, s.methods, s.properties))
        = [("Outer", ["First", "Inner", "Last"], []), ("Checks", [], ["Count"])]
      ∧ (testClasses .csharp "A.cs" nestedTypes).map (·.name) = ["Checks"] := by
  have hv : Vocabulary.csharp.methodTypes.Disjoint Vocabulary.csharp.propertyTypes := by
    simp [Vocabulary.csharp]
  obtain ⟨hdetails, -, -, htests, -⟩ := members_nearest .csharp "A.cs" nestedTypes hv
  rw [hdetails, htests]
  exact ⟨hv, by decide +kernel, by decide +kernel⟩

end SyntaxForest
