import SyntaxForest.Inventory.Declarations
import SyntaxForest.Proofs.Comments.Adding
import SyntaxForest.Proofs.Inventory.Members

/-!
# Inventories of annotated trees

In a syntax tree a comment is a *note*: a leaf of a category that the vocabulary does not have. A
tree is *annotated* if it is another one with notes among the children of its nodes
(`Tree.Annotated`); how much else has to be the same of a node is left open. The walks of the
inventories come across the nodes of before and notes, whether or not they stop anywhere
(`interspersed_walkUpTo`), and then keep no note. So what an inventory says of an annotated tree
is what it says of the nodes of before.
-/

namespace SyntaxForest

/-- The categories that the inventories look for. -/
def Vocabulary.categories (v : Vocabulary) : List String :=
  v.typeDeclarationTypes ++ v.methodTypes ++ v.propertyTypes ++ v.scopeTypes
    ++ v.invocationTypes ++ v.awaitTypes ++ v.awaitFlagTypes

/-- **A note**: a leaf that no inventory looks for. -/
structure Vocabulary.IsNote (v : Vocabulary) (c : Tree) : Prop where
  kind : c.kind ∉ v.categories
  leaf : c.children = []

/-- **What an annotated node has in common** with the node of before, whatever its comments. -/
structure Tree.Alike (v : Vocabulary) (u u' : Tree) : Prop where
  kind : u'.kind = u.kind
  line : u'.line = u.line
  name : u.kind ∈ v.categories → u'.get? "name" = u.get? "name"
  told : ∀ key ∈ ["modifiers", "attributes", "is_async", "return_type"], u'.get? key = u.get? key

/-- **An annotated tree**: its nodes are related to those of before, and among their children
there are notes. -/
inductive Tree.Annotated (v : Vocabulary) (S : Tree → Tree → Prop) : Tree → Tree → Prop
  | node (u u' : Tree) (same : S u u')
      (below : Interspersed (Annotated v S) v.IsNote u.children u'.children) : Annotated v S u u'

namespace Tree

variable {v : Vocabulary} {S : Tree → Tree → Prop} {u u' c : Tree} {us us' : List Tree}

theorem Annotated.same (h : Annotated v S u u') : S u u' := by
  cases h with
  | node _ _ same => exact same

theorem Annotated.children_annotated (h : Annotated v S u u') :
    Interspersed (Annotated v S) v.IsNote u.children u'.children := by
  cases h with
  | node _ _ _ below => exact below

theorem Alike.givenName? (h : Alike v u u') (hkind : u.kind ∈ v.categories) :
    u'.givenName? = u.givenName? := by
  rw [Tree.givenName?, Tree.givenName?, name?, name?, h.name hkind]

/-! ## Walks -/

/-- **Walks of annotated trees** come across the nodes of before and notes. -/
theorem interspersed_walkUpTo {stop : Tree → Bool} (hstop : ∀ u u', S u u' → stop u' = stop u)
    (h : Interspersed (Annotated v S) v.IsNote us us') :
    Interspersed (Annotated v S) v.IsNote (walkUpTo stop us) (walkUpTo stop us') := by
  -- The walk goes below a node before it goes on, so the induction is on what is left to walk.
  induction hn : sizeAll us' using Nat.strongRecOn generalizing us us' with
  | ind n ih =>
    cases h with
    | nil =>
      rw [walkUpTo]
      exact .nil
    | @keep u u' rest rest' same further =>
      rw [sizeAll, size_eq u'] at hn
      rw [walkUpTo_cons, walkUpTo_cons, hstop u u' same.same]
      refine .keep same (.append ?_ (ih (sizeAll rest') (by omega) further rfl))
      cases stop u with
      | true => exact .nil
      | false => exact ih (sizeAll u'.children) (by omega) same.children_annotated rfl
    | @add c _ rest' note further =>
      rw [sizeAll, size_eq c] at hn
      -- A note is a leaf: stopping there or not is the same.
      have hbelow : (if stop c then [] else walkUpTo stop c.children) = [] := by
        rw [note.leaf, walkUpTo, ite_self]
      rw [walkUpTo_cons stop c, hbelow, List.nil_append]
      exact .add note (ih (sizeAll rest') (by omega) further rfl)

theorem walkFrom_eq_walkUpTo (ts : List Tree) : walkFrom ts = walkUpTo (fun _ => false) ts := by
  induction ts using walkFrom.induct with
  | case1 => rw [walkFrom, walkUpTo]
  | case2 t waiting ih => rw [walkFrom, walkUpTo, ih, if_neg Bool.false_ne_true]

/-- Of a root that is not looked for only what is below it is picked. -/
theorem filter_walk_below {p : Tree → Bool} (hp : ∀ t, p t = true → t.kind ∈ v.categories)
    (hroot : u.kind ∉ v.categories) :
    u.walk.filter p = (walkUpTo (fun _ => false) u.children).filter p := by
  rw [walk, walkFrom, List.append_nil, walkFrom_eq_walkUpTo,
    List.filter_cons_of_neg fun h => hroot (hp u h)]

/-- **What is picked of annotated trees** corresponds to what is picked of the trees of before, if
it is picked by category and by what else is the same of the nodes. -/
theorem picked_annotated {k : String → Bool} {q : Tree → Bool}
    (h : Interspersed (Annotated v S) v.IsNote us us')
    (hS : ∀ u u', S u u' → Alike v u u') (hk : ∀ s, k s = true → s ∈ v.categories)
    (hq : ∀ u u', Annotated v S u u' → u.kind ∈ v.categories → q u' = q u) :
    List.Forall₂ (fun u u' => Annotated v S u u' ∧ k u.kind = true)
      (us.filter fun u => k u.kind && q u) (us'.filter fun u => k u.kind && q u) := by
  have hpick : ∀ u, (k u.kind && q u) = true → u.kind ∈ v.categories := fun u hu =>
    hk u.kind (Bool.and_eq_true_iff.mp hu).1
  refine forall₂_imp_of_mem (h.filter_forall₂ (fun u u' hu => ?_) fun c hc => ?_)
    fun u hu _ _ hsame => ⟨hsame, (Bool.and_eq_true_iff.mp (List.mem_filter.mp hu).2).1⟩
  · rw [(hS u u' hu.same).kind]
    cases hku : k u.kind with
    | false => rw [Bool.false_and, Bool.false_and]
    | true => rw [hq u u' hu (hk u.kind hku)]
  · exact Bool.eq_false_iff.mpr fun hu => hc.kind (hpick c hu)

/-- **A root whose tree is annotated.** The root itself is not looked for, and only what is below it
needs to be related. -/
structure AnnotatedRoot (v : Vocabulary) (S : Tree → Tree → Prop) (u u' : Tree) : Prop where
  alike : ∀ u u', S u u' → Alike v u u'
  root : u.kind ∉ v.categories
  root' : u'.kind ∉ v.categories
  below : Interspersed (Annotated v S) v.IsNote u.children u'.children

/-- What is picked below an annotated root. -/
theorem AnnotatedRoot.picked {k : String → Bool} {q : Tree → Bool} (h : AnnotatedRoot v S u u')
    (hk : ∀ s, k s = true → s ∈ v.categories)
    (hq : ∀ u u', Annotated v S u u' → u.kind ∈ v.categories → q u' = q u) :
    List.Forall₂ (fun u u' => Annotated v S u u' ∧ k u.kind = true)
      (u.walk.filter fun u => k u.kind && q u) (u'.walk.filter fun u => k u.kind && q u) := by
  have hpick : ∀ u : Tree, (k u.kind && q u) = true → u.kind ∈ v.categories := fun u hu =>
    hk u.kind (Bool.and_eq_true_iff.mp hu).1
  rw [filter_walk_below hpick h.root, filter_walk_below hpick h.root']
  exact picked_annotated (interspersed_walkUpTo (fun _ _ _ => rfl) h.below) h.alike hk hq

end Tree

open SyntaxForest.Tree

/-! ## Declarations -/

/-- A summary without the base types. -/
def TypeSummary.withoutBases (s : TypeSummary) : TypeSummary := { s with baseTypes := [] }

/-- An inventory whose summaries are without the base types. -/
def Declarations.withoutBases (d : Declarations) : Declarations :=
  { d with classDetails := d.classDetails.map TypeSummary.withoutBases }

theorem Declarations.eq_of_withoutBases {a b : Declarations} (h : a.withoutBases = b.withoutBases)
    (hdetails : a.classDetails = b.classDetails) : a = b := by
  cases a
  cases b
  simp only [withoutBases, mk.injEq] at h hdetails ⊢
  exact ⟨h.1, h.2.1, h.2.2.1, h.2.2.2.1, h.2.2.2.2.1, hdetails⟩

variable {v : Vocabulary} {S : Tree → Tree → Prop} {u u' : Tree} {us us' : List Tree}

theorem Vocabulary.mem_categories_of_declaration {k : String} {kind : DeclarationKind}
    (h : (v.declarationKind? k == some kind) = true) : k ∈ v.categories := by
  unfold declarationKind? at h
  simp only [categories, typeDeclarationTypes, List.mem_append]
  split_ifs at h with h1 h2 h3 h4 h5
  · simp [List.contains_iff_mem.mp h1]
  · simp [List.contains_iff_mem.mp h2]
  · simp [List.contains_iff_mem.mp h3]
  · simp [List.contains_iff_mem.mp h4]
  · simp [List.contains_iff_mem.mp h5]
  · cases h

theorem Vocabulary.mem_categories_of_class {k : String} (h : v.classTypes.contains k = true) :
    k ∈ v.categories := by
  simp [categories, typeDeclarationTypes, List.contains_iff_mem.mp h]

theorem Vocabulary.mem_categories_of_method {k : String} (h : v.methodTypes.contains k = true) :
    k ∈ v.categories := by
  simp [categories, List.contains_iff_mem.mp h]

theorem memberNames_annotated {k : String → Bool} (hS : ∀ u u', S u u' → Alike v u u')
    (h : Interspersed (Annotated v S) v.IsNote us us')
    (hk : ∀ s, k s = true → s ∈ v.categories) : memberNames us' k = memberNames us k := by
  have hpicked := picked_annotated (q := fun _ => true) h hS hk fun _ _ _ _ => rfl
  simp only [Bool.and_true] at hpicked
  exact filterMap_eq_of_forall₂ hpicked fun u u' hu =>
    (hS u u' hu.1.same).givenName? (hk u.kind hu.2)

theorem directMembers_annotated (hS : ∀ u u', S u u' → Alike v u u') (h : Annotated v S u u') :
    Interspersed (Annotated v S) v.IsNote (directMembers v u) (directMembers v u') :=
  interspersed_walkUpTo (fun u u' hu => by rw [(hS u u' hu).kind]) h.children_annotated

/-- **The summary of an annotated declaration** is the one of before, but for the base types. -/
theorem TypeSummary.ofTree_annotated (path : String) (hS : ∀ u u', S u u' → Alike v u u')
    (h : Annotated v S u u') (hkind : u.kind ∈ v.categories) : ofTree v path u'
      = { ofTree v path u with baseTypes := splitProperty "," (u'.get? "base_types") } := by
  have halike := hS u u' h.same
  have hmembers := directMembers_annotated hS h
  have hmethods : ∀ s, v.methodTypes.contains s = true → s ∈ v.categories := fun _ =>
    Vocabulary.mem_categories_of_method
  have hproperties : ∀ s, (!v.methodTypes.contains s && v.propertyTypes.contains s) = true →
      s ∈ v.categories := fun s hs => by
    simp [Vocabulary.categories, List.contains_iff_mem.mp (Bool.and_eq_true_iff.mp hs).2]
  unfold ofTree
  dsimp only
  rw [memberNames_annotated hS hmembers hmethods, memberNames_annotated hS hmembers hproperties,
    halike.line, halike.told "modifiers" (by simp), name?, name?, halike.name hkind]

theorem hasTestAttribute_annotated (hS : ∀ u u', S u u' → Alike v u u')
    (h : Annotated v S u u') : hasTestAttribute v u' = hasTestAttribute v u := by
  rw [hasTestAttribute, hasTestAttribute, (hS u u' h.same).told "attributes" (by simp)]

/-- **An annotated class** is a test fixture if it was one. -/
theorem isTestClass_annotated (hS : ∀ u u', S u u' → Alike v u u') (h : Annotated v S u u') :
    isTestClass v u' = isTestClass v u := by
  rw [isTestClass, isTestClass, hasTestAttribute_annotated hS h]
  refine congrArg _ ((directMembers_annotated hS h).any_eq (fun m m' hm => ?_) fun c hc => ?_)
  · rw [(hS m m' hm.same).kind, hasTestAttribute_annotated hS hm]
  · rw [Bool.and_eq_false_imp]
    intro hmethod
    exact absurd (Vocabulary.mem_categories_of_method hmethod) hc.kind

/-! ## Asynchronous methods -/

theorem isAsyncMethod_annotated (hS : ∀ u u', S u u' → Alike v u u') (h : Annotated v S u u') :
    isAsyncMethod v u' = isAsyncMethod v u := by
  have halike := hS u u' h.same
  rw [isAsyncMethod, isAsyncMethod, halike.told "is_async" (by simp),
    halike.told "modifiers" (by simp), halike.told "return_type" (by simp)]

/-- **The body of an annotated method** has the nodes of before and notes. -/
theorem methodBody_annotated (hS : ∀ u u', S u u' → Alike v u u') (h : Annotated v S u u') :
    Interspersed (Annotated v S) v.IsNote (methodBody v u) (methodBody v u') := by
  have hskip : ∀ u u' : Tree, u'.kind = u.kind →
      (v.scopeTypes.contains u'.kind || v.methodTypes.contains u'.kind)
        = (v.scopeTypes.contains u.kind || v.methodTypes.contains u.kind) :=
    fun u u' hkind => by rw [hkind]
  rw [methodBody, methodBody, walkWithout_eq, walkWithout_eq]
  refine (interspersed_walkUpTo (fun u u' hu => hskip u u' (hS u u' hu).kind)
    h.children_annotated).filter fun u u' hu => ?_
  rw [hskip u u' (hS u u' hu.same).kind]

theorem calledMember?_note {c : Tree} (hc : v.IsNote c) : calledMember? v c = none := by
  have hnot : v.invocationTypes.contains c.kind = false := Bool.eq_false_iff.mpr fun hcall =>
    hc.kind (by simp [Vocabulary.categories, List.contains_iff_mem.mp hcall])
  rw [calledMember?, hnot, Bool.and_false, if_neg Bool.false_ne_true]

theorem isAwait_note {c : Tree} (hc : v.IsNote c) : isAwait v c = false := by
  have hawait : v.awaitTypes.contains c.kind = false := Bool.eq_false_iff.mpr fun hawait =>
    hc.kind (by simp [Vocabulary.categories, List.contains_iff_mem.mp hawait])
  have hflag : v.awaitFlagTypes.contains c.kind = false := Bool.eq_false_iff.mpr fun hflag =>
    hc.kind (by simp [Vocabulary.categories, List.contains_iff_mem.mp hflag])
  rw [isAwait, hawait, hflag]
  rfl

theorem isSuspension_note {c : Tree} (hc : v.IsNote c) : isSuspension v c = false := by
  rw [isSuspension, isAwait_note hc, calledMember?_note hc]
  rfl

theorem isContextFree_note {c : Tree} (hc : v.IsNote c) : isContextFree v c = false := by
  rw [isContextFree, calledMember?_note hc]
  rfl

theorem joinedMember?_note {c : Tree} (hc : v.IsNote c) : joinedMember? v c = none := by
  rw [joinedMember?, calledMember?_note hc]
  split
  · exact ite_self _
  · rfl

namespace AsyncMethod

variable (path : String)

/-- **The record of an annotated method** is the one of before, but for what is found in calls. -/
theorem ofTree_annotated (hS : ∀ u u', S u u' → Alike v u u') (h : Annotated v S u u')
    (hkind : u.kind ∈ v.categories) : ofTree v path u'
      = { ofTree v path u with
          awaitCount := (ofTree v path u').awaitCount
          hasConfigureAwait := (ofTree v path u').hasConfigureAwait
          hasWhenAll := (ofTree v path u').hasWhenAll
          hasWhenAny := (ofTree v path u').hasWhenAny } := by
  have halike := hS u u' h.same
  unfold ofTree
  dsimp only
  rw [halike.line, halike.told "return_type" (by simp), name?, name?, halike.name hkind]

theorem awaitCount_annotated (hS : ∀ u u', S u u' → Alike v u u') (h : Annotated v S u u')
    (hcall : ∀ u u', S u u' → isSuspension v u' = isSuspension v u) :
    (ofTree v path u').awaitCount = (ofTree v path u).awaitCount :=
  congrArg Int.ofNat ((methodBody_annotated hS h).countP_eq (fun u u' hu => hcall u u' hu.same)
    fun _ hc => isSuspension_note hc)

theorem awaitCount_annotated_le (hS : ∀ u u', S u u' → Alike v u u') (h : Annotated v S u u')
    (hcall : ∀ u u', S u u' → isSuspension v u' = true → isSuspension v u = true) :
    (ofTree v path u').awaitCount ≤ (ofTree v path u).awaitCount :=
  Int.ofNat_le.mpr ((methodBody_annotated hS h).countP_le (fun u u' hu => hcall u u' hu.same)
    fun _ hc => isSuspension_note hc)

theorem hasConfigureAwait_annotated (hS : ∀ u u', S u u' → Alike v u u')
    (h : Annotated v S u u') (hcall : ∀ u u', S u u' → isContextFree v u' = isContextFree v u) :
    (ofTree v path u').hasConfigureAwait = (ofTree v path u).hasConfigureAwait :=
  (methodBody_annotated hS h).any_eq (fun u u' hu => hcall u u' hu.same)
    fun _ hc => isContextFree_note hc

theorem hasWhenAll_annotated (hS : ∀ u u', S u u' → Alike v u u') (h : Annotated v S u u')
    (hcall : ∀ u u', S u u' → joinedMember? v u' = joinedMember? v u) :
    (ofTree v path u').hasWhenAll = (ofTree v path u).hasWhenAll :=
  (methodBody_annotated hS h).any_eq
    (fun u u' hu => by rw [isWhenAll, isWhenAll, hcall u u' hu.same])
    fun _ hc => by rw [isWhenAll, joinedMember?_note hc]; rfl

theorem hasWhenAny_annotated (hS : ∀ u u', S u u' → Alike v u u') (h : Annotated v S u u')
    (hcall : ∀ u u', S u u' → joinedMember? v u' = joinedMember? v u) :
    (ofTree v path u').hasWhenAny = (ofTree v path u).hasWhenAny :=
  (methodBody_annotated hS h).any_eq
    (fun u u' hu => by rw [isWhenAny, isWhenAny, hcall u u' hu.same])
    fun _ hc => by rw [isWhenAny, joinedMember?_note hc]; rfl

end AsyncMethod

/-! ## Whole trees -/

namespace Tree.AnnotatedRoot

variable (h : AnnotatedRoot v S u u') (path : String)
include h

/-- The nodes of one kind of declarations correspond. -/
theorem declared (kind : DeclarationKind) :
    List.Forall₂ (fun u u' => Annotated v S u u' ∧ (v.declarationKind? u.kind == some kind) = true)
      ((u.walk.filter fun n => n.givenName?.isSome).filter fun n =>
        v.declarationKind? n.kind == some kind)
      ((u'.walk.filter fun n => n.givenName?.isSome).filter fun n =>
        v.declarationKind? n.kind == some kind) := by
  rw [List.filter_filter, List.filter_filter]
  exact h.picked (fun _ => Vocabulary.mem_categories_of_declaration)
    fun u u' hu hkind => by rw [(h.alike u u' hu.same).givenName? hkind]

/-- What is the same of the summaries of corresponding nodes is the same of all summaries. -/
theorem map_classDetails {γ : Type} (part : TypeSummary → γ)
    (hpart : ∀ u u', Annotated v S u u' → v.classTypes.contains u.kind = true →
      part (TypeSummary.ofTree v path u') = part (TypeSummary.ofTree v path u)) :
    (Declarations.ofTree v path u').classDetails.map part
      = (Declarations.ofTree v path u).classDetails.map part := by
  simp only [Declarations.ofTree, List.map_map]
  exact map_eq_of_forall₂ (h.declared .classLike) fun u u' hu =>
    hpart u u' hu.1 ((v.classLike_iff u.kind).symm.trans hu.2)

theorem map_testClasses {γ : Type} (part : TypeSummary → γ)
    (hpart : ∀ u u', Annotated v S u u' → v.classTypes.contains u.kind = true →
      part (TypeSummary.ofTree v path u') = part (TypeSummary.ofTree v path u)) :
    (testClasses v path u').map part = (testClasses v path u).map part := by
  have hclass : ∀ s, v.classTypes.contains s = true → s ∈ v.categories := fun _ =>
    Vocabulary.mem_categories_of_class
  simp only [testClasses, List.map_map, Bool.and_assoc]
  refine map_eq_of_forall₂ (h.picked hclass fun u u' hu hkind => ?_) fun u u' hu =>
    hpart u u' hu.1 hu.2
  rw [(h.alike u u' hu.same).givenName? hkind, isTestClass_annotated h.alike hu]

/-- **The declarations of an annotated tree** are those of before, and so are their summaries but
for the base types. -/
theorem declarations :
    (Declarations.ofTree v path u').withoutBases = (Declarations.ofTree v path u).withoutBases := by
  have hnames : ∀ kind : DeclarationKind,
      ((u'.walk.filter fun n => n.givenName?.isSome).filter fun n =>
          v.declarationKind? n.kind == some kind).filterMap Tree.givenName?
        = ((u.walk.filter fun n => n.givenName?.isSome).filter fun n =>
          v.declarationKind? n.kind == some kind).filterMap Tree.givenName? := fun kind =>
    filterMap_eq_of_forall₂ (h.declared kind) fun u u' hu =>
      (h.alike u u' hu.1.same).givenName? (Vocabulary.mem_categories_of_declaration hu.2)
  have hdetails := h.map_classDetails path TypeSummary.withoutBases fun u u' hu hclass => by
    rw [TypeSummary.ofTree_annotated path h.alike hu (Vocabulary.mem_categories_of_class hclass)]
    rfl
  unfold Declarations.withoutBases
  rw [hdetails]
  simp only [Declarations.ofTree, hnames]

/-- **The asynchronous methods of an annotated tree** are those of before. -/
theorem forall₂_asyncMethods {R : AsyncMethod → AsyncMethod → Prop}
    (hR : ∀ u u', Annotated v S u u' → u.kind ∈ v.categories →
      R (AsyncMethod.ofTree v path u) (AsyncMethod.ofTree v path u')) :
    List.Forall₂ R (asyncMethods v path u) (asyncMethods v path u') := by
  have hmethod : ∀ s, v.methodTypes.contains s = true → s ∈ v.categories := fun _ =>
    Vocabulary.mem_categories_of_method
  simp only [asyncMethods, Bool.and_assoc]
  rw [List.forall₂_map_left_iff, List.forall₂_map_right_iff]
  refine (h.picked hmethod fun u u' hu hkind => ?_).imp
    fun u u' hu => hR u u' hu.1 (hmethod u.kind hu.2)
  rw [(h.alike u u' hu.same).givenName? hkind, isAsyncMethod_annotated h.alike hu]

end Tree.AnnotatedRoot

end SyntaxForest
