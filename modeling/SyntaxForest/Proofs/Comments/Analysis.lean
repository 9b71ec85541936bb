import SyntaxForest.Proofs.Comments.Calls

/-!
# What comments change in an analysis

Comments change no class, interface, enumeration, method or property that is found, and little in
what is said of them: the base types of a class, since what stands in a list of types counts as a
type, and what is read of the calls in a method (`analysis_commented`). Each of these is kept as
well where comments keep clear of the places it is read from; where they do not, it is lost
(`analysis_commented_miscounted`).
-/

namespace SyntaxForest

open ParseTree Conversion SyntaxForest.Tree

variable {src : Bytes} {shift : Shift} {t t' n n' : ParseTree}

/-- **Nodes that are summarised alike**, base types included. -/
structure Tree.SummarisedAlike (v : Vocabulary) (u u' : Tree) : Prop extends Alike v u u' where
  bases : v.classTypes.contains u.kind = true → u'.get? "base_types" = u.get? "base_types"

/-- **Nodes that count alike** in the body of a method. -/
structure Tree.CountsAlike (v : Vocabulary) (u u' : Tree) : Prop extends Alike v u u' where
  suspension : isSuspension v u' = isSuspension v u
  contextFree : isContextFree v u' = isContextFree v u
  joined : joinedMember? v u' = joinedMember? v u

namespace Dialect.Listing

variable (d : Listing)

/-! ## Declarations -/

section Declarations

variable (path : String)

/-- Declarations and test fixtures change only in their base types. -/
theorem withoutBases_commented (h : Commented t t') :
    (Declarations.ofTree d.vocabulary path (d.tree src shift t')).withoutBases
        = (Declarations.ofTree d.vocabulary path (d.tree src shift t)).withoutBases
      ∧ (testClasses d.vocabulary path (d.tree src shift t')).map TypeSummary.withoutBases
        = (testClasses d.vocabulary path (d.tree src shift t)).map TypeSummary.withoutBases := by
  have hroot : AnnotatedRoot d.vocabulary (Alike d.vocabulary) (d.tree src shift t)
      (d.tree src shift t') :=
    d.annotatedRoot src shift (fun _ _ hu => hu) (fun n n' hn _ => alike_converted d hn) h
      fun _ _ => trivial
  refine ⟨hroot.declarations path, hroot.map_testClasses path _ fun u u' hu hclass => ?_⟩
  rw [TypeSummary.ofTree_annotated path hroot.alike hu (Vocabulary.mem_categories_of_class hclass)]
  rfl

/-- They are kept where no comment stands among base types. -/
theorem declarations_commented (h : Commented t t') (hclear : ∀ n ∈ t'.keptBelow, d.ClearBases n) :
    Declarations.ofTree d.vocabulary path (d.tree src shift t')
        = Declarations.ofTree d.vocabulary path (d.tree src shift t)
      ∧ testClasses d.vocabulary path (d.tree src shift t')
        = testClasses d.vocabulary path (d.tree src shift t) := by
  have hroot : AnnotatedRoot d.vocabulary (SummarisedAlike d.vocabulary) (d.tree src shift t)
      (d.tree src shift t') :=
    d.annotatedRoot src shift (fun _ _ hu => hu.toAlike)
      (fun n n' hn hbelow => ⟨alike_converted d hn,
        get?_baseTypes d hn (hbelow n' List.mem_cons_self)⟩) h hclear
  have hsummary : ∀ u u', Annotated d.vocabulary (SummarisedAlike d.vocabulary) u u' →
      d.vocabulary.classTypes.contains u.kind = true →
      id (TypeSummary.ofTree d.vocabulary path u') = id (TypeSummary.ofTree d.vocabulary path u) :=
    fun u u' hu hclass => by
      rw [TypeSummary.ofTree_annotated path hroot.alike hu
        (Vocabulary.mem_categories_of_class hclass), hu.same.bases hclass]
      rfl
  have hdetails := hroot.map_classDetails path id hsummary
  have htests := hroot.map_testClasses path id hsummary
  rw [List.map_id, List.map_id] at hdetails htests
  exact ⟨Declarations.eq_of_withoutBases (withoutBases_commented d path h).1 hdetails, htests⟩

end Declarations

/-! ## Asynchronous methods -/

/-- **No comment stands where calls are read from the places or the number of children.** -/
def ClearCall : Listing → Bytes → ParseTree → Prop
  | csharp => CSharp.ClearCall
  | java => fun _ => Java.ClearCall

instance (n : ParseTree) : Decidable (d.ClearCall src n) :=
  match d with
  | csharp => inferInstanceAs (Decidable (CSharp.ClearCall src n))
  | java => inferInstanceAs (Decidable (Java.ClearCall n))

theorem countsAlike_converted (h : Commented n n')
    (hclear : ∀ m ∈ n' :: n'.keptBelow, d.ClearCall src m) :
    CountsAlike d.vocabulary (converted d.describe src shift n)
      (converted d.describe src shift n') := by
  have hself := hclear n' List.mem_cons_self
  cases d with
  | csharp =>
    exact ⟨alike_converted .csharp h, CSharp.isSuspension_commented h,
      CSharp.isContextFree_commented h hclear,
      joinedMember?_commented .csharp h (CSharp.get?_memberName h hself)⟩
  | java =>
    exact ⟨alike_converted .java h, Java.isSuspension_commented h hself,
      Java.isContextFree_commented h, joinedMember?_commented .java h (Java.get?_memberName h)⟩

/-- **What comments cannot change of how a node counts**: in C# whether it is a suspension point,
in Java all but that, and there no node becomes one. -/
def Recounted : Listing → Tree → Tree → Prop
  | csharp => fun u u' => isSuspension .csharp u' = isSuspension .csharp u
  | java => fun u u' => (isSuspension .java u' = true → isSuspension .java u = true)
    ∧ isContextFree .java u' = isContextFree .java u
    ∧ joinedMember? .java u' = joinedMember? .java u

theorem recounted_converted (h : Commented n n') :
    d.Recounted (converted d.describe src shift n) (converted d.describe src shift n') := by
  cases d with
  | csharp => exact CSharp.isSuspension_commented h
  | java =>
    exact ⟨Java.isSuspension_of_commented h, Java.isContextFree_commented h,
      joinedMember?_commented .java h (Java.get?_memberName h)⟩

/-- **What comments can change in the record of a method**: in C# the idioms, and in Java the
number of suspension points, which becomes smaller. -/
def Recounts : Listing → AsyncMethod → AsyncMethod → Prop
  | csharp => fun r r' => r' =
      { r with
        hasConfigureAwait := r'.hasConfigureAwait
        hasWhenAll := r'.hasWhenAll
        hasWhenAny := r'.hasWhenAny }
  | java => fun r r' => r' = { r with awaitCount := r'.awaitCount } ∧ r'.awaitCount ≤ r.awaitCount

section Methods

variable (path : String)

/-- **The record of a method** changes as its calls do. -/
theorem recounts_ofTree {S : Tree → Tree → Prop} {u u' : Tree}
    (halike : ∀ u u', S u u' → Alike d.vocabulary u u') (hS : ∀ u u', S u u' → d.Recounted u u')
    (hu : Annotated d.vocabulary S u u') (hkind : u.kind ∈ d.vocabulary.categories) :
    d.Recounts (AsyncMethod.ofTree d.vocabulary path u)
      (AsyncMethod.ofTree d.vocabulary path u') := by
  have hrecord := AsyncMethod.ofTree_annotated path halike hu hkind
  cases d with
  | csharp =>
    rw [AsyncMethod.awaitCount_annotated path halike hu hS] at hrecord
    exact hrecord
  | java =>
    rw [AsyncMethod.hasConfigureAwait_annotated path halike hu fun u u' hu => (hS u u' hu).2.1,
      AsyncMethod.hasWhenAll_annotated path halike hu fun u u' hu => (hS u u' hu).2.2,
      AsyncMethod.hasWhenAny_annotated path halike hu fun u u' hu => (hS u u' hu).2.2] at hrecord
    exact ⟨hrecord, AsyncMethod.awaitCount_annotated_le path halike hu fun u u' hu =>
      (hS u u' hu).1⟩

/-- The records of methods change only in what is read of calls. -/
theorem asyncMethods_recounts (h : Commented t t') :
    List.Forall₂ d.Recounts (asyncMethods d.vocabulary path (d.tree src shift t))
      (asyncMethods d.vocabulary path (d.tree src shift t')) := by
  have hroot : AnnotatedRoot d.vocabulary (fun u u' => Alike d.vocabulary u u' ∧ d.Recounted u u')
      (d.tree src shift t) (d.tree src shift t') :=
    d.annotatedRoot src shift (fun _ _ hu => hu.1)
      (fun n n' hn _ => ⟨alike_converted d hn, recounted_converted d hn⟩) h fun _ _ => trivial
  exact hroot.forall₂_asyncMethods path fun u u' hu hkind =>
    recounts_ofTree d path hroot.alike (fun _ _ hu => hu.2) hu hkind

/-- They are kept where no comment stands where calls are read. -/
theorem asyncMethods_commented (h : Commented t t')
    (hclear : ∀ n ∈ t'.keptBelow, d.ClearCall src n) :
    asyncMethods d.vocabulary path (d.tree src shift t')
      = asyncMethods d.vocabulary path (d.tree src shift t) := by
  have hroot : AnnotatedRoot d.vocabulary (CountsAlike d.vocabulary) (d.tree src shift t)
      (d.tree src shift t') :=
    d.annotatedRoot src shift (fun _ _ hu => hu.toAlike)
      (fun n n' hn hbelow => countsAlike_converted d hn hbelow) h hclear
  have hrecords := hroot.forall₂_asyncMethods (R := Eq) path fun u u' hu hkind => by
    rw [AsyncMethod.ofTree_annotated path hroot.alike hu hkind,
      AsyncMethod.awaitCount_annotated path hroot.alike hu fun _ _ hsame => hsame.suspension,
      AsyncMethod.hasConfigureAwait_annotated path hroot.alike hu fun _ _ hsame =>
        hsame.contextFree,
      AsyncMethod.hasWhenAll_annotated path hroot.alike hu fun _ _ hsame => hsame.joined,
      AsyncMethod.hasWhenAny_annotated path hroot.alike hu fun _ _ hsame => hsame.joined]
  rw [List.forall₂_eq_eq_eq] at hrecords
  exact hrecords.symm

end Methods

end Dialect.Listing

namespace Dialect

/-- **What comments change in an analysis.** They change no class, interface, enumeration, method
or property, and of the summaries of classes and test fixtures no more than the base types. Of the
records of asynchronous methods they change what is read of calls. Where no comment stands among
base types, or where calls are read from the places of children, these are kept as well. -/
theorem analysis_commented (d : Listing) {t t' : ParseTree} (h : Commented t t') (src : Bytes)
    (shift : Shift) (path : String) :
    let before := d.tree src shift t
    let after := d.tree src shift t'
    (Declarations.ofTree d.vocabulary path after).withoutBases
        = (Declarations.ofTree d.vocabulary path before).withoutBases
      ∧ (testClasses d.vocabulary path after).map TypeSummary.withoutBases
        = (testClasses d.vocabulary path before).map TypeSummary.withoutBases
      ∧ List.Forall₂ d.Recounts (asyncMethods d.vocabulary path before)
        (asyncMethods d.vocabulary path after)
      ∧ ((∀ n ∈ t'.keptBelow, d.ClearBases n) →
        Declarations.ofTree d.vocabulary path after = Declarations.ofTree d.vocabulary path before
        ∧ testClasses d.vocabulary path after = testClasses d.vocabulary path before)
      ∧ ((∀ n ∈ t'.keptBelow, d.ClearCall src n) →
        asyncMethods d.vocabulary path after = asyncMethods d.vocabulary path before) :=
  ⟨(d.withoutBases_commented path h).1, (d.withoutBases_commented path h).2,
    d.asyncMethods_recounts path h, d.declarations_commented path h,
    d.asyncMethods_commented path h⟩

/-! ### Comments beside a call and inside of it -/

/-- A method that waits for a result, with one comment in the place of arguments and one below. -/
def waitingSource : Bytes :=
  Bytes.ofText "class A { Future<T> m() { f.join(/* c */); /* d */ } }"

/-- The statement, with some nodes between the parentheses. -/
def waitingStatement (inside : List ParseTree) : ParseTree :=
  fieldNode "expression_statement" 26 42 []
    [fieldNode "method_invocation" 26 41 [("object", 0), ("name", 1), ("arguments", 2)]
      [fieldNode "identifier" 26 27 [] [], fieldNode "identifier" 28 32 [] [],
        fieldNode "argument_list" 32 41 [] inside]]

/-- The file, with some nodes in the body of the method. -/
def waitingFile (body : List ParseTree) : ParseTree :=
  fieldNode "program" 0 54 []
    [fieldNode "class_declaration" 0 54 [("name", 0), ("body", 1)]
      [fieldNode "identifier" 6 7 [] [],
        fieldNode "class_body" 8 54 []
          [fieldNode "method_declaration" 10 52
            [("type", 0), ("name", 1), ("parameters", 2), ("body", 3)]
            [fieldNode "generic_type" 10 19 [] [], fieldNode "identifier" 20 21 [] [],
              fieldNode "formal_parameters" 21 23 [] [], fieldNode "block" 24 52 [] body]]]]

theorem waitingFile_commented {body body' : List ParseTree}
    (h : Interspersed Commented IsComment body body') :
    Commented (waitingFile body) (waitingFile body') :=
  .of_child _ [] [] <| .of_child _ [_] [] <| .of_child _ [] [] <| .of_child _ [_, _, _] [] <|
    .of_no_fields _ rfl h

theorem waitingStatement_commented {inside inside' : List ParseTree}
    (h : Interspersed Commented IsComment inside inside') :
    Commented (waitingStatement inside) (waitingStatement inside') :=
  .of_child _ [] [] <| .of_child _ [_, _] [] <| .of_no_fields _ rfl h

/-- A comment. -/
def blockComment (start stop : Nat) : ParseTree := fieldNode "block_comment" start stop [] []

theorem isComment_blockComment (start stop : Nat) : IsComment (blockComment start stop) :=
  ⟨show "block_comment" ∈ commentKinds by decide, rfl, rfl⟩

/-- A comment below the call changes nothing, and the method goes on having one suspension
point. -/
theorem analysis_commented_waiting :
    let before := Listing.java.tree waitingSource {} (waitingFile [waitingStatement []])
    let after := Listing.java.tree waitingSource {}
      (waitingFile [waitingStatement [], blockComment 43 50])
    Commented (waitingFile [waitingStatement []])
        (waitingFile [waitingStatement [], blockComment 43 50])
      ∧ Declarations.ofTree .java "A.java" after = Declarations.ofTree .java "A.java" before
      ∧ testClasses .java "A.java" after = testClasses .java "A.java" before
      ∧ asyncMethods .java "A.java" after = asyncMethods .java "A.java" before
      ∧ (asyncMethods .java "A.java" after).map (·.awaitCount) = [1] := by
  have hcommented : Commented (waitingFile [waitingStatement []])
      (waitingFile [waitingStatement [], blockComment 43 50]) :=
    waitingFile_commented (.keep (.refl _) (.add (isComment_blockComment 43 50) .nil))
  obtain ⟨-, -, -, hdeclared, hmethods⟩ :=
    analysis_commented .java hcommented waitingSource {} "A.java"
  obtain ⟨hdeclarations, htests⟩ := hdeclared (by decide)
  exact ⟨hcommented, hdeclarations, htests, hmethods (by decide), by decide +kernel⟩

/-- A class with a base type and a comment in front of it. -/
def derivedSource : Bytes := Bytes.ofText "class A : /* c */ B { }"

/-- The file, with some nodes in front of the base type. -/
def derivedFile (inside : List ParseTree) : ParseTree :=
  fieldNode "compilation_unit" 0 23 []
    [fieldNode "class_declaration" 0 23 [("name", 0), ("body", 2)]
      [fieldNode "identifier" 6 7 [] [],
        fieldNode "base_list" 8 19 [] (inside ++ [fieldNode "identifier" 18 19 [] []]),
        fieldNode "declaration_list" 20 23 [] []]]

/-- A method that resumes without its context, with a comment in front of the argument. -/
def resumedSource : Bytes :=
  Bytes.ofText "class A { async Task M() { await f.ConfigureAwait(/* c */ false); } }"

/-- The call that is awaited, with some nodes in front of the argument. -/
def resumedCall (inside : List ParseTree) : ParseTree :=
  fieldNode "invocation_expression" 33 64 [("function", 0), ("arguments", 1)]
    [fieldNode "member_access_expression" 33 49 [("expression", 0), ("name", 1)]
      [fieldNode "identifier" 33 34 [] [], fieldNode "identifier" 35 49 [] []],
      fieldNode "argument_list" 49 64 []
        (inside ++ [fieldNode "argument" 58 63 [] [fieldNode "boolean_literal" 58 63 [] []]])]

/-- The file. -/
def resumedFile (inside : List ParseTree) : ParseTree :=
  fieldNode "compilation_unit" 0 69 []
    [fieldNode "class_declaration" 0 69 [("name", 0), ("body", 1)]
      [fieldNode "identifier" 6 7 [] [],
        fieldNode "declaration_list" 8 69 []
          [fieldNode "method_declaration" 10 67
            [("type", 1), ("name", 2), ("parameters", 3), ("body", 4)]
            [fieldNode "modifier" 10 15 [] [], fieldNode "identifier" 16 20 [] [],
              fieldNode "identifier" 21 22 [] [], fieldNode "parameter_list" 22 24 [] [],
              fieldNode "block" 25 67 []
                [fieldNode "expression_statement" 27 65 []
                  [fieldNode "await_expression" 27 64 [] [resumedCall inside]]]]]]]

/-- **Comments that are counted.** In Java a comment in the place of arguments is one, and the
method that waited for a result has no suspension point any more. In C# a comment among the base
types of a class is one of them, and one in front of the first argument is taken for it, so that
the method does not count as one that resumes without its context. -/
theorem analysis_commented_miscounted :
    (Commented (waitingFile [waitingStatement []])
        (waitingFile [waitingStatement [blockComment 33 40]])
      ∧ (asyncMethods .java "A.java" (Listing.java.tree waitingSource {}
          (waitingFile [waitingStatement []]))).map (·.awaitCount) = [1]
      ∧ (asyncMethods .java "A.java" (Listing.java.tree waitingSource {}
          (waitingFile [waitingStatement [blockComment 33 40]]))).map (·.awaitCount) = [0])
    ∧ (Commented (derivedFile []) (derivedFile [fieldNode "comment" 10 17 [] []])
      ∧ (Declarations.ofTree .csharp "A.cs" (Listing.csharp.tree derivedSource {}
          (derivedFile []))).classDetails.map (·.baseTypes) = [["B"]]
      ∧ (Declarations.ofTree .csharp "A.cs" (Listing.csharp.tree derivedSource {}
          (derivedFile [fieldNode "comment" 10 17 [] []]))).classDetails.map (·.baseTypes)
        = [["/* c */", "B"]])
    ∧ Commented (resumedFile []) (resumedFile [fieldNode "comment" 50 57 [] []])
      ∧ (asyncMethods .csharp "A.cs" (Listing.csharp.tree resumedSource {}
          (resumedFile []))).map (·.hasConfigureAwait) = [true]
      ∧ (asyncMethods .csharp "A.cs" (Listing.csharp.tree resumedSource {}
          (resumedFile [fieldNode "comment" 50 57 [] []]))).map (·.hasConfigureAwait)
        = [false] := by
  have hwaiting : Commented (waitingFile [waitingStatement []])
      (waitingFile [waitingStatement [blockComment 33 40]]) :=
    waitingFile_commented <|
      .keep (waitingStatement_commented (.add (isComment_blockComment 33 40) .nil)) .nil
  have hderived : Commented (derivedFile []) (derivedFile [fieldNode "comment" 10 17 [] []]) :=
    .of_child _ [] [] <| .of_child _ [_] [_] <| .of_no_fields _ rfl <|
      .add ⟨by decide, rfl, rfl⟩ (.keep (.refl _) .nil)
  have hresumed : Commented (resumedFile []) (resumedFile [fieldNode "comment" 50 57 [] []]) :=
    .of_child _ [] [] <| .of_child _ [_] [] <| .of_child _ [] [] <|
      .of_child _ [_, _, _, _] [] <| .of_child _ [] [] <| .of_child _ [] [] <|
        .of_child _ [] [] <| .of_child _ [_] [] <| .of_no_fields _ rfl <|
          .add ⟨by decide, rfl, rfl⟩ (.keep (.refl _) .nil)
  exact ⟨⟨hwaiting, by decide +kernel, by decide +kernel⟩,
    ⟨hderived, by decide +kernel, by decide +kernel⟩,
    hresumed, by decide +kernel, by decide +kernel⟩

end Dialect

end SyntaxForest
