import SyntaxForest.Proofs.Comments.Adding
import SyntaxForest.Proofs.ParseTree.Skeleton

/-!
# What nodes tell in spite of comments

Most of what a dialect tells of a node is read from fields and from children of some kinds, and
comments change none of it. What is read from the place of a named child, or from their number,
does change: the base types that a declaration lists, the member that a call of C# names with type
arguments, the number of arguments of a call of Java (and what imports say, which no inventory
reads). For each of these there is a condition on where comments stand, and under it they change
nothing either.
-/

namespace SyntaxForest

namespace ParseTree

/-- Whether a node is of a kind of comments. -/
def isComment (c : ParseTree) : Bool := commentKinds.contains c.kind

/-- Whether a comment is among the named children. -/
def hasComment (t : ParseTree) : Bool := t.namedChildren.any isComment

/-- Whether the named children are comments, and there are some. -/
def hasOnlyComments (t : ParseTree) : Bool :=
  !t.namedChildren.isEmpty && t.namedChildren.all isComment

variable {t t' : ParseTree}

theorem IsComment.isComment {c : ParseTree} (hc : IsComment c) : c.isComment = true :=
  List.contains_iff_mem.mpr hc.kind

theorem not_isComment {c : ParseTree} (h : c.isComment = false) : ¬IsComment c := fun hc => by
  rw [hc.isComment] at h
  cases h

namespace Commented

/-- A node among whose children is no comment has the named children of before. -/
theorem namedChildren_of_not_hasComment (h : Commented t t') (hno : t'.hasComment = false) :
    List.Forall₂ Commented t.namedChildren t'.namedChildren :=
  h.namedChildren.forall₂ fun c hc hcomment =>
    List.any_eq_false.mp hno c hc hcomment.isComment

/-- The first named child is the one of before, unless a comment comes first. -/
theorem head?_namedChildren (h : Commented t t')
    (hno : ∀ c ∈ t'.namedChildren.head?, c.isComment = false) :
    Option.Rel Commented t.namedChildren.head? t'.namedChildren.head? :=
  h.namedChildren.head?_rel fun c hc => not_isComment (hno c hc)

/-- The last named child is the one of before, unless a comment comes last. -/
theorem getLast?_namedChildren (h : Commented t t')
    (hno : ∀ c ∈ t'.namedChildren.getLast?, c.isComment = false) :
    Option.Rel Commented t.namedChildren.getLast? t'.namedChildren.getLast? :=
  h.namedChildren.getLast?_rel fun c hc => not_isComment (hno c hc)

/-- A node without named children had none before. -/
theorem isEmpty_of_namedChildren (h : Commented t t') (hno : t'.namedChildren.isEmpty = true) :
    t.namedChildren.isEmpty = true := by
  have hadded := h.namedChildren
  rw [List.isEmpty_iff.mp hno] at hadded
  generalize t.namedChildren = cs at hadded
  cases hadded
  rfl

/-- A node with other children than comments had some before. -/
theorem namedChildren_isEmpty (h : Commented t t') (hno : t'.hasOnlyComments = false) :
    t'.namedChildren.isEmpty = t.namedChildren.isEmpty := by
  rw [hasOnlyComments, Bool.and_eq_false_imp] at hno
  have hadded := h.namedChildren
  cases ht : t.namedChildren with
  | nil =>
    rw [ht] at hadded
    by_contra hne
    rw [List.isEmpty_nil, Bool.not_eq_true] at hne
    refine Bool.eq_false_iff.mp (hno (by rw [hne]; rfl)) (List.all_eq_true.mpr fun c hc => ?_)
    exact (hadded.of_nil c hc).isComment
  | cons c rest =>
    rw [ht] at hadded
    obtain ⟨b, bs, hcons⟩ := hadded.exists_cons
    rw [hcons]
    rfl

end Commented

end ParseTree

open ParseTree Conversion

namespace Dialect

variable {t t' : ParseTree} {key : String}

theorem told_ite {c : Prop} [Decidable c] {a a' b b' : List (String × Option Scalar)}
    (h : c → told a' key = told a key) (h' : told b' key = told b key) :
    told (if c then a' else b') key = told (if c then a else b) key := by
  split
  · next hc => exact h hc
  · exact h'

namespace CSharp

theorem modifiers_commented (h : Commented t t') (src : Bytes) :
    modifiers t' src = modifiers t src := by
  rw [modifiers, modifiers,
    map_eq_of_forall₂ (h.childrenOfKind (by decide)) fun _ _ h => h.text_eq src]

theorem attributeNames_commented (h : Commented t t') (src : Bytes) :
    attributeNames t' src = attributeNames t src :=
  flatMap_eq_of_forall₂ (h.childrenOfKind (by decide)) fun _ _ hlist =>
    filterMap_eq_of_forall₂ (hlist.childrenOfKind (by decide)) fun _ _ ha => by
      rw [ha.fieldText?]

theorem accessorKinds_commented (h : Commented t t') (src : Bytes) :
    accessorKinds t' src = accessorKinds t src :=
  flatMap_eq_of_forall₂ (h.childrenOfKind (by decide)) fun _ _ hlist =>
    flatMap_eq_of_forall₂ (hlist.childrenOfKind (by decide)) fun _ _ ha => by
      rw [ha.fieldText?, map_eq_of_forall₂ ha.anonymous fun _ _ h => h.kind_eq]

theorem isAsync_commented (h : Commented t t') (src : Bytes) : isAsync t' src = isAsync t src := by
  rw [isAsync, isAsync, modifiers_commented h]

theorem returnType_commented (h : Commented t t') (src : Bytes) :
    returnType t' src = returnType t src := by
  rw [returnType, returnType, h.fieldText?, h.fieldText?]

theorem told_describeCall (h : Commented t t') (src : Bytes) (hkey : key ≠ "member_name") :
    told (describeCall t' src) key = told (describeCall t src) key := by
  have hcount : ((t'.field? "arguments").map fun a => (a.childrenOfKind ["argument"]).length)
      = (t.field? "arguments").map fun a => (a.childrenOfKind ["argument"]).length :=
    map_eq_of_rel (h.field? "arguments") fun _ _ ha =>
      (ha.childrenOfKind (by decide)).length_eq.symm
  have hfunction := h.field? "function"
  unfold describeCall
  rw [hcount]
  generalize t.field? "function" = f at hfunction
  generalize t'.field? "function" = f' at hfunction
  cases hfunction with
  | none => rfl
  | some hf =>
    dsimp only
    rw [hf.kind_eq, hf.fieldText?]
    split_ifs <;> simp [told_cons, hkey.symm]

/-- **What a node of C# tells** in spite of comments: all but what a directive names, if the base
types and the member that is called are kept. -/
theorem told_describe (h : Commented t t') (src : Bytes) (hkey : key ∉ ["namespace", "alias"])
    (hbase : key = "base_types" → typeDeclarations.contains t.kind = true →
      baseTypes t' src = baseTypes t src)
    (hmember : key = "member_name" → t.kind = "invocation_expression" →
      told (describeCall t' src) key = told (describeCall t src) key) :
    told (describe t' src) key = told (describe t src) key := by
  have hnamespace : ¬"namespace" = key := fun heq => hkey (heq ▸ by decide)
  have halias : ¬"alias" = key := fun heq => hkey (heq ▸ by decide)
  unfold describe attributes
  dsimp only
  rw [h.kind_eq, h.fieldText?, h.fieldText?, modifiers_commented h, attributeNames_commented h,
    accessorKinds_commented h, isAsync_commented h, returnType_commented h,
    h.hasToken (by decide), h.hasToken (by decide), h.hasToken (by decide),
    h.childText? (by decide)]
  refine told_ite (fun htype => ?_) <| told_ite (fun _ => rfl) <| told_ite (fun _ => rfl) <|
    told_ite (fun _ => rfl) <| told_ite (fun _ => rfl) <| told_ite (fun _ => rfl) <|
    told_ite (fun _ => rfl) <| told_ite (fun hcall => ?_) <| told_ite (fun _ => ?_) rfl
  · by_cases hk : key = "base_types"
    · rw [hbase hk htype]
    · have hne : ¬"base_types" = key := fun heq => hk heq.symm
      simp [told_cons, hne]
  · by_cases hk : key = "member_name"
    · exact hmember hk hcall
    · exact told_describeCall h src hk
  · simp [told_cons, hnamespace, halias]

/-! ### Base types and members of calls -/

/-- The nodes whose named children are a declaration's base types. -/
def typeLists (t : ParseTree) : List ParseTree := t.childrenOfKind ["base_list"]

/-- Lists of types without comments list the types of before. -/
theorem baseTypes_commented (h : Commented t t') (src : Bytes)
    (hno : ∀ l ∈ typeLists t', l.hasComment = false) : baseTypes t' src = baseTypes t src := by
  have hlists : List.Forall₂ (fun l l' => List.Forall₂ Commented l.namedChildren l'.namedChildren)
      (typeLists t) (typeLists t') :=
    forall₂_imp_of_mem (h.childrenOfKind (by decide)) fun _ _ _ hl' hlist =>
      hlist.namedChildren_of_not_hasComment (hno _ hl')
  rw [baseTypes, baseTypes]
  refine congrArg _ ?_
  unfold baseTypeNames
  change (((typeLists t').find? _).elim _ _) = (((typeLists t).find? _).elim _ _)
  generalize typeLists t = ls at hlists
  generalize typeLists t' = ls' at hlists
  induction hlists with
  | nil => rfl
  | @cons l l' _ _ hlist _ ih =>
    rw [List.find?_cons, List.find?_cons, isEmpty_eq_of_forall₂ hlist]
    cases hl : l.namedChildren.isEmpty with
    | true => exact ih
    | false => exact map_eq_of_forall₂ hlist fun _ _ h => h.text_eq src

/-- **The node that names the member that a call calls.** -/
def calledName? (t : ParseTree) : Option ParseTree :=
  (t.field? "function").bind fun f =>
    if f.kind = "member_access_expression" then f.field? "name"
    else if f.kind = "identifier" ∨ f.kind = "generic_name" then some f
    else none

theorem told_member_name (t : ParseTree) (src : Bytes) :
    told (describeCall t src) "member_name"
      = (calledName? t).map fun n => .text (simpleName n src) := by
  unfold describeCall calledName?
  cases t.field? "function" with
  | none => rfl
  | some f =>
    rw [Option.bind_some]
    dsimp only
    split_ifs <;> simp [told]

theorem calledName?_commented (h : Commented t t') :
    Option.Rel Commented (calledName? t) (calledName? t') := by
  have hfunction := h.field? "function"
  unfold calledName?
  generalize t.field? "function" = f at hfunction
  generalize t'.field? "function" = f' at hfunction
  cases hfunction with
  | none => exact .none
  | some hf =>
    rw [Option.bind_some, Option.bind_some, hf.kind_eq]
    split_ifs
    · exact hf.field? "name"
    · exact .some hf
    · exact .none

/-- A name with type arguments keeps its identifier if no comment comes first. -/
theorem simpleName_commented (h : Commented t t') (src : Bytes)
    (hno : t'.kind = "generic_name" → ∀ c ∈ t'.namedChildren.head?, c.isComment = false) :
    simpleName t' src = simpleName t src := by
  unfold simpleName
  rw [h.kind_eq, h.text_eq]
  by_cases hgeneric : t.kind = "generic_name"
  · have hfirst := h.head?_namedChildren (hno (h.kind_eq.trans hgeneric))
    generalize t.namedChildren = cs at hfirst
    generalize t'.namedChildren = cs' at hfirst
    cases cs <;> cases cs' <;> cases hfirst
    · rfl
    · next hc =>
      dsimp only
      rw [if_pos hgeneric, if_pos hgeneric, hc.text_eq]
  · simp only [if_neg hgeneric]
    cases t.namedChildren <;> cases t'.namedChildren <;> rfl

/-- **The member that a call names** is kept if no comment stands in front of it. -/
theorem member_name_commented (h : Commented t t') (src : Bytes)
    (hno : ∀ n ∈ calledName? t', n.kind = "generic_name" →
      ∀ c ∈ n.namedChildren.head?, c.isComment = false) :
    told (describeCall t' src) "member_name" = told (describeCall t src) "member_name" := by
  rw [told_member_name, told_member_name]
  have hname := calledName?_commented h
  generalize calledName? t = n at hname
  generalize hn' : calledName? t' = n' at hname
  cases hname with
  | none => rfl
  | some hname => rw [Option.map_some, Option.map_some, simpleName_commented hname src (hno _ hn')]

end CSharp

namespace Java

theorem modifierNode?_commented (h : Commented t t') :
    Option.Rel Commented (modifierNode? t) (modifierNode? t') :=
  head?_of_forall₂ (h.childrenOfKind (by decide))

theorem modifiers_commented (h : Commented t t') : modifiers t' = modifiers t := by
  have hnode := modifierNode?_commented h
  unfold modifiers
  generalize modifierNode? t = m at hnode
  generalize modifierNode? t' = m' at hnode
  cases hnode with
  | none => rfl
  | some hm =>
    rw [Option.bind_some, Option.bind_some, map_eq_of_forall₂ hm.anonymous fun _ _ h => h.kind_eq]

theorem annotationNames_commented (h : Commented t t') (src : Bytes) :
    annotationNames t' src = annotationNames t src := by
  have hnode := modifierNode?_commented h
  unfold annotationNames
  generalize modifierNode? t = m at hnode
  generalize modifierNode? t' = m' at hnode
  cases hnode with
  | none => rfl
  | some hm =>
    exact filterMap_eq_of_forall₂ (hm.childrenOfKind (by decide)) fun _ _ ha => by
      rw [ha.fieldText?]

/-- How many arguments a call has. -/
def argumentCount (t : ParseTree) : Nat :=
  ((t.field? "arguments").map (·.namedChildren.length)).getD 0

/-- **What a node of Java tells** in spite of comments: all but what an import or a package names,
if the base types and the number of arguments are kept. -/
theorem told_describe (h : Commented t t') (src : Bytes) (hkey : key ≠ "namespace")
    (hname : key = "name" → t.kind ≠ "package_declaration")
    (hbase : key = "base_types" → typeDeclarations.contains t.kind = true →
      baseTypeNames t' src = baseTypeNames t src)
    (hcount : key = "argument_count" → t.kind = "method_invocation" →
      argumentCount t' = argumentCount t) :
    told (describe t' src) key = told (describe t src) key := by
  unfold describe annotations
  dsimp only
  rw [h.kind_eq, h.fieldText?, h.fieldText?, h.fieldText?, modifiers_commented h,
    annotationNames_commented h, h.hasToken (by decide), h.hasToken (by decide)]
  refine told_ite (fun htype => ?_) <| told_ite (fun _ => rfl) <| told_ite (fun _ => rfl) <|
    told_ite (fun _ => rfl) <| told_ite (fun hcall => ?_) <| told_ite (fun _ => ?_) <|
    told_ite (fun hpackage => ?_) rfl
  · by_cases hk : key = "base_types"
    · rw [hbase hk htype]
    · have hne : ¬"base_types" = key := fun heq => hk heq.symm
      simp [told_cons, hne]
  · by_cases hk : key = "argument_count"
    · have hsame := hcount hk hcall
      unfold argumentCount at hsame
      rw [hsame]
    · have hne : ¬"argument_count" = key := fun heq => hk heq.symm
      simp [told_cons, hne]
  · simp [told_cons, hkey.symm]
  · have hne : ¬"name" = key := fun heq => hname heq.symm hpackage
    simp [told_cons, hne]

/-! ### Base types and numbers of arguments -/

/-- The clauses in which base types stand. -/
def clauses (t : ParseTree) : List ParseTree :=
  (t.field? "superclass").toList ++ (t.field? "interfaces").toList
    ++ t.childrenOfKind ["extends_interfaces"]

/-- The nodes whose named children are a declaration's base types: the clauses, and the lists in
them. -/
def typeLists (t : ParseTree) : List ParseTree :=
  (clauses t).flatMap fun clause =>
    clause :: clause.namedChildren.filter (·.kind == "type_list")

theorem clauses_commented (h : Commented t t') :
    List.Forall₂ Commented (clauses t) (clauses t') :=
  List.rel_append (List.rel_append (forall₂_toList (h.field? "superclass"))
    (forall₂_toList (h.field? "interfaces"))) (h.childrenOfKind (by decide))

theorem typeNames_commented (h : Commented t t') (src : Bytes) (hself : t'.hasComment = false)
    (hlists : ∀ l ∈ t'.namedChildren, l.kind = "type_list" → l.hasComment = false) :
    typeNames t' src = typeNames t src := by
  refine flatMap_eq_of_forall₂ (R := fun c c' => Commented c c'
    ∧ (c'.kind = "type_list" → c'.hasComment = false)) ?_ fun c c' hc => ?_
  · exact forall₂_imp_of_mem (h.namedChildren_of_not_hasComment hself)
      fun _ _ c' hc' hc => ⟨hc, hlists c' hc'⟩
  · rw [hc.1.kind_eq]
    by_cases hlist : c.kind = "type_list"
    · rw [if_pos hlist, if_pos hlist]
      exact map_eq_of_forall₂
        (hc.1.namedChildren_of_not_hasComment (hc.2 (hc.1.kind_eq.trans hlist)))
        fun _ _ h => h.text_eq src
    · rw [if_neg hlist, if_neg hlist, hc.1.text_eq]

/-- Lists of types without comments list the types of before. -/
theorem baseTypeNames_commented (h : Commented t t') (src : Bytes)
    (hno : ∀ l ∈ typeLists t', l.hasComment = false) :
    baseTypeNames t' src = baseTypeNames t src := by
  refine flatMap_eq_of_forall₂ (R := fun c c' => typeNames c' src = typeNames c src) ?_
    fun _ _ h => h
  refine forall₂_imp_of_mem (clauses_commented h) fun c _ c' hc' hc => ?_
  refine typeNames_commented hc src (hno c' ?_) fun l hl hkind => hno l ?_
  · exact List.mem_flatMap.mpr ⟨c', hc', List.mem_cons_self⟩
  · refine List.mem_flatMap.mpr ⟨c', hc', List.mem_cons_of_mem _ (List.mem_filter.mpr ⟨hl, ?_⟩)⟩
    exact beq_iff_eq.mpr hkind

end Java

end Dialect

end SyntaxForest
