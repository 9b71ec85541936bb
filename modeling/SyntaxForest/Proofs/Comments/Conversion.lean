import SyntaxForest.Proofs.Comments.Describe
import SyntaxForest.Proofs.Comments.Inventories

/-!
# Conversions of commented trees

The syntax tree of a commented parse tree is an annotated one: a comment becomes a note, and of
every other node its category, its line, and what the dialect reads by field or by kind stay as
they were (`Listing.alike_converted`). What else is the same of all nodes, or of those where
comments keep clear of some places, is carried over to the whole tree
(`Listing.annotatedRoot`).
-/

namespace SyntaxForest

open ParseTree Conversion SyntaxForest.Tree

variable {src : Bytes} {shift : Shift} {t t' n n' : ParseTree} {key : String}

/-! ## Conversions of commented trees -/

theorem ParseTree.mem_keptBelow_of_child {c m : ParseTree} (hc : c ∈ t.namedChildren)
    (hm : m ∈ c :: c.keptBelow) : m ∈ t.keptBelow := by
  rcases List.mem_cons.mp hm with rfl | hm
  · exact mem_keptBelow_of_mem hc
  · exact mem_keptBelow_trans (mem_keptBelow_of_mem hc) hm

theorem get?_converted_of_ne {describe : Describe} (htext : key ≠ "text") (t : ParseTree) :
    (converted describe src shift t).get? key = (nodeProperties describe src shift t).get? key := by
  rw [converted_eq, Tree.get?, Tree.properties]
  split
  · exact Properties.get?_set_of_ne htext.symm
  · rfl

/-- **A property of a commented node** is the one of before, if the dialect tells the same. -/
theorem get?_converted_commented {describe : Describe} (h : Commented t t') (htext : key ≠ "text")
    (htold : told (describe t' src) key = told (describe t src) key) :
    (converted describe src shift t').get? key = (converted describe src shift t).get? key := by
  have hspan : spanProperties t'.head shift = spanProperties t.head shift := by
    rw [h.head_eq]
    rfl
  rw [get?_converted_of_ne htext, get?_converted_of_ne htext, get?_nodeProperties_told,
    get?_nodeProperties_told, htold, hspan, h.missing_eq]

namespace Dialect.Listing

variable (d : Listing)

theorem isNote_converted {c : ParseTree} (hc : IsComment c) :
    d.vocabulary.IsNote (converted d.describe src shift c) := by
  have hkinds : ∀ k ∈ commentKinds, categoryOf k ∉ d.vocabulary.categories := by
    cases d <;> decide +kernel
  refine ⟨converted_kind c ▸ hkinds c.kind hc.kind, ?_⟩
  rw [converted_children, ParseTree.namedChildren, hc.leaf]
  rfl

/-- Keys whose values no comment changes. -/
def keptKeys : List String :=
  ["start_line", "modifiers", "attributes", "is_async", "return_type", "is_await", "receiver"]

theorem get?_kept (h : Commented n n') (hkey : key ∈ keptKeys) :
    (converted d.describe src shift n').get? key
      = (converted d.describe src shift n).get? key := by
  have hne : ∀ k ∈ keptKeys, k ∉ ["text", "namespace", "alias", "base_types", "member_name",
      "argument_count", "name"] := by decide
  have hk := hne key hkey
  simp only [List.mem_cons, not_or] at hk
  obtain ⟨htext, hnamespace, halias, hbase, hmember, hcount, hname, -⟩ := hk
  refine get?_converted_commented h htext ?_
  cases d with
  | csharp =>
    exact CSharp.told_describe h src (by simp [hnamespace, halias]) (fun h => absurd h hbase)
      fun h => absurd h hmember
  | java =>
    exact Java.told_describe h src hnamespace (fun h => absurd h hname) (fun h => absurd h hbase)
      fun h => absurd h hcount

/-- The name of a node is kept, unless it is a package. -/
theorem get?_name (h : Commented n n') (hpackage : n.kind ≠ "package_declaration") :
    (converted d.describe src shift n').get? "name"
      = (converted d.describe src shift n).get? "name" := by
  refine get?_converted_commented h (by decide) ?_
  cases d with
  | csharp =>
    exact CSharp.told_describe h src (by decide) (fun h => absurd h (by decide))
      fun h => absurd h (by decide)
  | java =>
    exact Java.told_describe h src (by decide) (fun _ => hpackage) (fun h => absurd h (by decide))
      fun h => absurd h (by decide)

/-- **What comments leave alone** of every node. -/
theorem alike_converted (h : Commented n n') :
    Alike d.vocabulary (converted d.describe src shift n) (converted d.describe src shift n') := by
  have hpackage : categoryOf "package_declaration" ∉ d.vocabulary.categories := by
    cases d <;> decide +kernel
  refine ⟨?_, ?_, fun hkind => get?_name d h fun heq => ?_, fun key hkey => get?_kept d h ?_⟩
  · rw [converted_kind, converted_kind, h.kind_eq]
  · rw [Tree.line, Tree.line, get?_kept d h (by decide)]
  · rw [converted_kind, heq] at hkind
    exact hpackage hkind
  · exact (by decide : ∀ k ∈ ["modifiers", "attributes", "is_async", "return_type"],
      k ∈ keptKeys) key hkey

variable {S : Tree → Tree → Prop} {Q : ParseTree → Prop}

theorem interspersed_converted (h : Commented t t')
    (hbelow : ∀ c c', c' ∈ t'.namedChildren → Commented c c' → Annotated d.vocabulary S
      (converted d.describe src shift c) (converted d.describe src shift c')) :
    Interspersed (Annotated d.vocabulary S) d.vocabulary.IsNote
      (t.namedChildren.map (converted d.describe src shift))
      (t'.namedChildren.map (converted d.describe src shift)) :=
  (h.namedChildren.imp_of_mem fun c _ c' hc' => hbelow c c' hc').map (fun _ _ h => h)
    fun _ hc => isNote_converted d hc

/-- **A commented tree becomes an annotated one**, related as what becomes of each node is. -/
theorem annotated_converted
    (hS : ∀ n n', Commented n n' → (∀ m ∈ n' :: n'.keptBelow, Q m) →
      S (converted d.describe src shift n) (converted d.describe src shift n'))
    (h : Commented t t') (hQ : ∀ m ∈ t' :: t'.keptBelow, Q m) :
    Annotated d.vocabulary S (converted d.describe src shift t)
      (converted d.describe src shift t') := by
  induction t' using ParseTree.childrenInduction generalizing t with
  | h t' ih =>
    refine .node _ _ (hS t t' h hQ) ?_
    rw [converted_children, converted_children]
    refine interspersed_converted d h fun c c' hc' hcc => ?_
    refine ih c' (List.mem_filter.mp hc').1 hcc fun m hm => hQ m ?_
    exact List.mem_cons_of_mem _ (mem_keptBelow_of_child hc' hm)

/-- **The syntax tree of a file** in the dialect. -/
def tree (src : Bytes) (shift : Shift) (t : ParseTree) : Tree :=
  (t.convert src d.describe shift (some d.rootKind)).root

theorem tree_notin_categories (t : ParseTree) :
    (d.tree src shift t).kind ∉ d.vocabulary.categories := by
  have hroot : (d.tree src shift t).kind = d.rootKind := by
    cases d <;> rfl
  have hkind : d.rootKind ∉ d.vocabulary.categories := by
    cases d <;> decide +kernel
  rw [hroot]
  exact hkind

variable (src shift) in
/-- **The tree of a commented file** is annotated, and its nodes are related as they are where the
condition holds of all nodes. -/
theorem annotatedRoot (halike : ∀ u u', S u u' → Alike d.vocabulary u u')
    (hS : ∀ n n', Commented n n' → (∀ m ∈ n' :: n'.keptBelow, Q m) →
      S (converted d.describe src shift n) (converted d.describe src shift n'))
    (h : Commented t t') (hQ : ∀ m ∈ t'.keptBelow, Q m) :
    AnnotatedRoot d.vocabulary S (d.tree src shift t) (d.tree src shift t') := by
  refine ⟨halike, tree_notin_categories d t, tree_notin_categories d t', ?_⟩
  rw [tree, tree, convert_children, convert_children]
  exact interspersed_converted d h fun c c' hc' hcc =>
    annotated_converted d hS hcc fun m hm => hQ m (mem_keptBelow_of_child hc' hm)

/-! ## Base types -/

/-- The nodes whose named children are a declaration's base types. -/
def typeLists : Listing → ParseTree → List ParseTree
  | csharp => CSharp.typeLists
  | java => Java.typeLists

/-- **No comment stands among the base types** of a class-like declaration. -/
def ClearBases (n : ParseTree) : Prop :=
  n.kind ∈ d.classKinds → ∀ l ∈ d.typeLists n, l.hasComment = false

instance (n : ParseTree) : Decidable (d.ClearBases n) := inferInstanceAs (Decidable (_ → _))

/-- **The base types of a class-like declaration** are kept where no comment stands among them. -/
theorem get?_baseTypes (h : Commented n n') (hclear : d.ClearBases n')
    (hclass : d.vocabulary.classTypes.contains (converted d.describe src shift n).kind = true) :
    (converted d.describe src shift n').get? "base_types"
      = (converted d.describe src shift n).get? "base_types" := by
  refine get?_converted_commented h (by decide) ?_
  by_cases htold : n.kind ∈ d.toldKinds
  · have hkind : n'.kind ∈ d.classKinds := by
      rw [h.kind_eq, ← classLike_iff d n.kind htold, ← beq_iff_eq, Vocabulary.classLike_iff]
      rwa [converted_kind] at hclass
    have hlists := hclear hkind
    cases d with
    | csharp =>
      exact CSharp.told_describe h src (by decide)
        (fun _ _ => CSharp.baseTypes_commented h src hlists) fun h => absurd h (by decide)
    | java =>
      exact Java.told_describe h src (by decide) (fun h => absurd h (by decide))
        (fun _ _ => Java.baseTypeNames_commented h src hlists) fun h => absurd h (by decide)
  · -- Of other nodes nothing is told.
    rw [describe_eq_nil d htold, describe_eq_nil d (h.kind_eq ▸ htold)]

end Dialect.Listing

end SyntaxForest
