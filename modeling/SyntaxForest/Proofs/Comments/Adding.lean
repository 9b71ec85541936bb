import SyntaxForest.ParseTree
import SyntaxForest.Proofs.Correspondence

/-!
# Adding comments to parse trees

A parser puts comments wherever they stand, as named children without children of their own. This
module says when one tree is another one with comments added (`ParseTree.Commented`): all nodes
are kept with what they cover, the fields go on naming the same children, and further children
are comments. Of the ways in which the children of a node are read, those that look for children
by field or by kind do not see the comments. The others see named children only, and these are
the named children of before, interspersed with comments.
-/

namespace SyntaxForest

namespace ParseTree

/-- **Induction over parse trees**, from the children to the root. -/
@[elab_as_elim]
theorem childrenInduction {motive : ParseTree → Prop}
    (h : ∀ t : ParseTree, (∀ c ∈ t.children, motive c) → motive t) (t : ParseTree) :
    motive t := by
  refine h t fun c hc => ?_
  exact childrenInduction h c
termination_by sizeOf t
decreasing_by
  cases t with
  | node head children =>
    have := List.sizeOf_lt_of_mem hc
    simp only [ParseTree.children, node.sizeOf_spec] at this ⊢
    omega

/-- Kinds of comments. -/
def commentKinds : List String := ["comment", "line_comment", "block_comment"]

/-- **A comment**: a named node of such a kind, without children. -/
structure IsComment (c : ParseTree) : Prop where
  kind : c.kind ∈ commentKinds
  named : c.head.named = true
  leaf : c.children = []

/-- **A tree with comments added**: each node is kept as it is, its further children are comments,
and its fields name the same children as before. -/
inductive Commented : ParseTree → ParseTree → Prop
  | node (head head' : ParseNode) (children children' : List ParseTree)
      (same : head' = { head with fields := head'.fields })
      (added : Interspersed Commented IsComment children children')
      (fields : ∀ name, Option.Rel Commented ((ParseTree.node head children).field? name)
        ((ParseTree.node head' children').field? name)) :
      Commented (ParseTree.node head children) (ParseTree.node head' children')

namespace Commented

variable {t t' : ParseTree} {kind : String} {kinds : List String}

theorem head_eq (h : Commented t t') : t'.head = { t.head with fields := t'.head.fields } := by
  cases h with
  | node head head' children children' same => exact same

theorem children_added (h : Commented t t') :
    Interspersed Commented IsComment t.children t'.children := by
  cases h with
  | node head head' children children' same added => exact added

theorem field? (h : Commented t t') (name : String) :
    Option.Rel Commented (t.field? name) (t'.field? name) := by
  cases h with
  | node head head' children children' same added fields => exact fields name

theorem kind_eq (h : Commented t t') : t'.kind = t.kind := by
  rw [ParseTree.kind, h.head_eq]

theorem named_eq (h : Commented t t') : t'.head.named = t.head.named := by
  rw [h.head_eq]

theorem missing_eq (h : Commented t t') : t'.head.missing = t.head.missing := by
  rw [h.head_eq]

/-- **A node covers the same text.** -/
theorem text_eq (h : Commented t t') (src : Bytes) : t'.text src = t.text src := by
  rw [ParseTree.text, h.head_eq]
  rfl

theorem fieldText? (h : Commented t t') (name : String) (src : Bytes) :
    t'.fieldText? name src = t.fieldText? name src :=
  map_eq_of_rel (h.field? name) fun _ _ h => h.text_eq src

/-- **The named children** are those of before and comments. -/
theorem namedChildren (h : Commented t t') :
    Interspersed Commented IsComment t.namedChildren t'.namedChildren :=
  h.children_added.filter fun _ _ h => h.named_eq

/-- The children that are not named are those of before. -/
theorem anonymous (h : Commented t t') :
    List.Forall₂ Commented (t.children.filter (!·.head.named))
      (t'.children.filter (!·.head.named)) :=
  h.children_added.filter_forall₂ (fun _ _ h => by rw [h.named_eq]) fun _ h => by rw [h.named]; rfl

theorem contains_eq_false {c : ParseTree} (hc : IsComment c)
    (hkinds : ∀ k ∈ kinds, k ∉ commentKinds) :
    kinds.contains c.kind = false :=
  Bool.eq_false_iff.mpr fun h => hkinds _ (List.contains_iff_mem.mp h) hc.kind

/-- **The children of some kinds** are those of before. -/
theorem childrenOfKind (h : Commented t t') (hkinds : ∀ k ∈ kinds, k ∉ commentKinds) :
    List.Forall₂ Commented (t.childrenOfKind kinds) (t'.childrenOfKind kinds) :=
  h.children_added.filter_forall₂ (fun _ _ h => by rw [h.kind_eq])
    fun _ hc => contains_eq_false hc hkinds

theorem childText? (h : Commented t t') (hkind : ∀ k ∈ [kind], k ∉ commentKinds) (src : Bytes) :
    t'.childText? kind src = t.childText? kind src :=
  map_eq_of_rel (head?_of_forall₂ (h.childrenOfKind hkind)) fun _ _ h => h.text_eq src

theorem hasToken (h : Commented t t') (hkind : kind ∉ commentKinds) :
    t'.hasToken kind = t.hasToken kind :=
  h.children_added.any_eq (fun _ _ h => by rw [h.kind_eq])
    fun _ hc => beq_false_of_ne fun heq => hkind (heq ▸ hc.kind)

/-- A change below the children, in the same places. -/
theorem of_children (head : ParseNode) {children children' : List ParseTree}
    (h : List.Forall₂ Commented children children') :
    Commented (ParseTree.node head children) (ParseTree.node head children') := by
  refine .node head head children children' rfl ?_ fun name => ?_
  · induction h with
    | nil => exact .nil
    | cons hc _ ih => exact .keep hc ih
  · change Option.Rel Commented ((head.fields.lookup name).bind fun i => children[i]?)
      ((head.fields.lookup name).bind fun i => children'[i]?)
    cases head.fields.lookup name with
    | none => exact .none
    | some i => exact getElem?_of_forall₂ h i

/-- **Adding no comment.** -/
theorem refl (t : ParseTree) : Commented t t := by
  induction t using childrenInduction with
  | h t ih =>
    cases t with
    | node head children => exact of_children head (List.forall₂_same.mpr ih)

/-- Comments among the children of a node without fields. -/
theorem of_no_fields (head : ParseNode) (hfields : head.fields = [])
    {children children' : List ParseTree}
    (h : Interspersed Commented IsComment children children') :
    Commented (ParseTree.node head children) (ParseTree.node head children') := by
  refine .node head head children children' rfl h fun name => ?_
  unfold ParseTree.field?
  simp only [ParseTree.head, hfields, List.lookup_nil, Option.bind_none]
  exact .none

/-- Comments in one of the children. -/
theorem of_child (head : ParseNode) (before after : List ParseTree) (h : Commented t t') :
    Commented (ParseTree.node head (before ++ t :: after))
      (ParseTree.node head (before ++ t' :: after)) :=
  of_children head (List.rel_append (List.forall₂_same.mpr fun c _ => refl c)
    (.cons h (List.forall₂_same.mpr fun c _ => refl c)))

end Commented

end ParseTree

end SyntaxForest
