import SyntaxForest.Proofs.Comments.Conversion
import SyntaxForest.Proofs.Rounding

/-!
# Calls in commented trees

What a body counts is read of calls: the member that is called, how many arguments there are, and
whether the first one is a literal. In Java a comment counts as an argument, so a call with a
comment in the place of arguments is no suspension point any more (`Java.ClearCall`). In C# a
comment can stand in front of the name with type arguments that is called, or where the first
argument and its value are looked for (`CSharp.ClearCall`). Elsewhere comments change nothing of
what is read of a call.
-/

namespace SyntaxForest

open ParseTree Conversion SyntaxForest.Tree

variable {src : Bytes} {shift : Shift} {n n' : ParseTree}

namespace Dialect.Listing

variable (d : Listing)

theorem isAwait_commented (h : Commented n n') :
    isAwait d.vocabulary (converted d.describe src shift n')
      = isAwait d.vocabulary (converted d.describe src shift n) := by
  rw [isAwait, isAwait, (alike_converted d h).kind, get?_kept d h (by decide)]

theorem calledMember?_commented (h : Commented n n')
    (hmember : (converted d.describe src shift n').get? "member_name"
      = (converted d.describe src shift n).get? "member_name") :
    calledMember? d.vocabulary (converted d.describe src shift n')
      = calledMember? d.vocabulary (converted d.describe src shift n) := by
  rw [calledMember?, calledMember?, isAwait_commented d h, (alike_converted d h).kind, hmember]

theorem joinedMember?_commented (h : Commented n n')
    (hmember : (converted d.describe src shift n').get? "member_name"
      = (converted d.describe src shift n).get? "member_name") :
    joinedMember? d.vocabulary (converted d.describe src shift n')
      = joinedMember? d.vocabulary (converted d.describe src shift n) := by
  rw [joinedMember?, joinedMember?, calledMember?_commented d h hmember,
    get?_kept d h (by decide)]

end Dialect.Listing

/-! ## Calls of Java -/

namespace Dialect.Java

/-- **The arguments of a call are not comments alone.** -/
def ClearCall (n : ParseTree) : Prop :=
  n.kind = "method_invocation" → ∀ a ∈ n.field? "arguments", a.hasOnlyComments = false

instance (n : ParseTree) : Decidable (ClearCall n) := inferInstanceAs (Decidable (_ → _))

theorem get?_argumentCount (hcall : n.kind = "method_invocation") :
    (converted describe src shift n).get? "argument_count" = some (.nat (argumentCount n)) := by
  have htold : told (describe n src) "argument_count" = some (.nat (argumentCount n)) := by
    simp [describe, hcall, typeDeclarations, told, argumentCount]
  have hnot : ¬("argument_count" = "is_missing" ∧ n.head.missing = true) := by simp
  rw [get?_converted_of_ne (by decide), get?_nodeProperties_told, htold, if_neg hnot]
  rfl

/-- Whether a call has no arguments, as it is read off the tree. -/
def hasNoArguments (u : Tree) : Bool :=
  (u.get? "argument_count").any fun n => n.equal false (.int 0)

theorem equal_zero_iff (k : Nat) : (Scalar.nat k).equal false (.int 0) = true ↔ k = 0 := by
  simp only [Scalar.nat, Scalar.equal, Scalar.toValue, Value.same, Value.place?]
  rw [Number.Place.same_ofInt_iff, Int.natCast_eq_zero]

theorem hasNoArguments_iff (hcall : n.kind = "method_invocation") :
    hasNoArguments (converted describe src shift n) = true ↔ argumentCount n = 0 := by
  rw [hasNoArguments, get?_argumentCount hcall]
  exact equal_zero_iff (argumentCount n)

theorem argumentCount_eq_zero_iff {n : ParseTree} :
    argumentCount n = 0 ↔ ∀ a ∈ n.field? "arguments", a.namedChildren.isEmpty = true := by
  unfold argumentCount
  cases n.field? "arguments" <;> simp

theorem hasNoArguments_commented_of_ne (h : Commented n n') (hcall : n.kind ≠ "method_invocation") :
    hasNoArguments (converted describe src shift n')
      = hasNoArguments (converted describe src shift n) := by
  rw [hasNoArguments, hasNoArguments, get?_converted_commented h (by decide)]
  exact told_describe h src (by decide) (fun h => absurd h (by decide))
    (fun h => absurd h (by decide)) fun _ h => absurd h hcall

/-- **A call without arguments** had none before. -/
theorem hasNoArguments_of_commented (h : Commented n n')
    (hno : hasNoArguments (converted describe src shift n') = true) :
    hasNoArguments (converted describe src shift n) = true := by
  by_cases hcall : n.kind = "method_invocation"
  · rw [hasNoArguments_iff (h.kind_eq.trans hcall), argumentCount_eq_zero_iff] at hno
    rw [hasNoArguments_iff hcall, argumentCount_eq_zero_iff]
    intro a ha
    have hfield := h.field? "arguments"
    rw [ha] at hfield
    generalize ha' : n'.field? "arguments" = o at hfield
    cases hfield with
    | @some _ a' hargs =>
      exact hargs.isEmpty_of_namedChildren (hno a' ha')
  · rwa [hasNoArguments_commented_of_ne h hcall] at hno

/-- **A call keeps having no arguments** if no comments take their place. -/
theorem hasNoArguments_commented (h : Commented n n') (hclear : ClearCall n') :
    hasNoArguments (converted describe src shift n')
      = hasNoArguments (converted describe src shift n) := by
  by_cases hcall : n.kind = "method_invocation"
  · refine Bool.eq_iff_iff.mpr ⟨hasNoArguments_of_commented h, ?_⟩
    rw [hasNoArguments_iff (h.kind_eq.trans hcall), argumentCount_eq_zero_iff,
      hasNoArguments_iff hcall, argumentCount_eq_zero_iff]
    intro hno a' ha'
    have hfield := h.field? "arguments"
    rw [ha'] at hfield
    generalize ha : n.field? "arguments" = o at hfield
    cases hfield with
    | some hargs =>
      rw [hargs.namedChildren_isEmpty (hclear (h.kind_eq.trans hcall) a' ha')]
      exact hno _ ha
  · exact hasNoArguments_commented_of_ne h hcall

theorem get?_memberName (h : Commented n n') :
    (converted describe src shift n').get? "member_name"
      = (converted describe src shift n).get? "member_name" :=
  get?_converted_commented h (by decide) <|
    told_describe h src (by decide) (fun h => absurd h (by decide)) (fun h => absurd h (by decide))
      fun h => absurd h (by decide)

theorem calledMember?_commented (h : Commented n n') :
    calledMember? .java (converted describe src shift n')
      = calledMember? .java (converted describe src shift n) :=
  Listing.calledMember?_commented .java h (get?_memberName h)

theorem isSuspension_eq (u : Tree) : isSuspension .java u = (calledMember? .java u).any fun m =>
    Vocabulary.java.suspensionMembers.contains m && hasNoArguments u := rfl

/-- **A suspension point** was one before the comments. -/
theorem isSuspension_of_commented (h : Commented n n')
    (hcounts : isSuspension .java (converted describe src shift n') = true) :
    isSuspension .java (converted describe src shift n) = true := by
  rw [isSuspension_eq, calledMember?_commented h, Option.any_eq_true] at hcounts
  obtain ⟨m, hm, hblocks⟩ := hcounts
  rw [Bool.and_eq_true] at hblocks
  rw [isSuspension_eq, Option.any_eq_true]
  exact ⟨m, hm, Bool.and_eq_true_iff.mpr ⟨hblocks.1, hasNoArguments_of_commented h hblocks.2⟩⟩

theorem isSuspension_commented (h : Commented n n') (hclear : ClearCall n') :
    isSuspension .java (converted describe src shift n')
      = isSuspension .java (converted describe src shift n) := by
  rw [isSuspension_eq, isSuspension_eq, calledMember?_commented h,
    hasNoArguments_commented h hclear]

theorem isContextFree_eq (u : Tree) : isContextFree .java u
    = (calledMember? .java u).any fun m =>
        Vocabulary.java.contextFreeMembers.contains m && true := rfl

theorem isContextFree_commented (h : Commented n n') :
    isContextFree .java (converted describe src shift n')
      = isContextFree .java (converted describe src shift n) := by
  rw [isContextFree_eq, isContextFree_eq, calledMember?_commented h]

end Dialect.Java

/-! ## Calls of C# -/

namespace Dialect.CSharp

/-- **No comment stands where a call is read from the place of a child**: in front of the name
that is called and its type arguments, in front of the arguments, behind the value of an argument,
or inside the literal that is looked for. -/
def ClearCall (src : Bytes) (n : ParseTree) : Prop :=
  (n.kind = "invocation_expression" → ∀ m ∈ calledName? n, m.kind = "generic_name" →
    ∀ c ∈ m.namedChildren.head?, c.isComment = false)
  ∧ (Vocabulary.csharp.argumentListTypes.contains (categoryOf n.kind) = true →
    ∀ c ∈ n.namedChildren.head?, c.isComment = false)
  ∧ (Vocabulary.csharp.argumentTypes.contains (categoryOf n.kind) = true →
    ∀ c ∈ n.namedChildren.getLast?, c.isComment = false)
  ∧ (n.text src = "false" → n.hasOnlyComments = false)

instance (src : Bytes) (n : ParseTree) : Decidable (ClearCall src n) :=
  inferInstanceAs (Decidable (_ ∧ _ ∧ _ ∧ _))

theorem get?_memberName (h : Commented n n') (hclear : ClearCall src n') :
    (converted describe src shift n').get? "member_name"
      = (converted describe src shift n).get? "member_name" :=
  get?_converted_commented h (by decide) <|
    told_describe h src (by decide) (fun h => absurd h (by decide)) fun _ hcall =>
      member_name_commented h src (hclear.1 (h.kind_eq.trans hcall))

theorem argumentValue_eq (v : Vocabulary) (u : Tree) : argumentValue v u
    = if v.argumentTypes.contains u.kind then u.children.getLast?.elim u (argumentValue v)
      else u := by
  rw [argumentValue]
  split
  · split <;> simp [*]
  · rfl

variable (shift) in
/-- **The value of an argument** is the one of before. -/
theorem argumentValue_commented (h : Commented n n')
    (hclear : ∀ m ∈ n' :: n'.keptBelow, ClearCall src m) :
    ∃ value value', Commented value value' ∧ ClearCall src value'
      ∧ argumentValue .csharp (converted describe src shift n) = converted describe src shift value
      ∧ argumentValue .csharp (converted describe src shift n')
        = converted describe src shift value' := by
  -- Both descend to the last child for as long as that is an argument.
  induction n' using ParseTree.childrenInduction generalizing n with
  | h n' ih =>
    have hself := hclear n' List.mem_cons_self
    rw [argumentValue_eq, argumentValue_eq, converted_kind, converted_kind, h.kind_eq,
      converted_children, converted_children, List.getLast?_map, List.getLast?_map]
    by_cases harg : Vocabulary.csharp.argumentTypes.contains (categoryOf n.kind) = true
    · rw [if_pos harg, if_pos harg]
      have hlast := h.getLast?_namedChildren (hself.2.2.1 (h.kind_eq ▸ harg))
      generalize n.namedChildren.getLast? = o at hlast
      generalize ho' : n'.namedChildren.getLast? = o' at hlast
      cases hlast with
      | none => exact ⟨n, n', h, hself, rfl, rfl⟩
      | some hc =>
        have hmem := List.mem_of_getLast? ho'
        exact ih _ (List.mem_filter.mp hmem).1 hc fun m hm =>
          hclear m (List.mem_cons_of_mem _ (mem_keptBelow_of_child hmem hm))
    · rw [if_neg harg, if_neg harg]
      exact ⟨n, n', h, hself, rfl, rfl⟩

/-- Whether what is left of an argument is a literal. -/
theorem isLiteral_converted (literal : String) (t : ParseTree) :
    ((converted describe src shift t).children.isEmpty
        && (converted describe src shift t).get? "text" == some (.text literal))
      = (t.namedChildren.isEmpty && t.text src == literal) := by
  rw [converted_children, List.isEmpty_map, converted_eq, Tree.get?, Tree.properties]
  cases hleaf : t.namedChildren.isEmpty with
  | true =>
    rw [if_pos rfl, Properties.get?_set_self]
    simp
  | false => rfl

theorem firstArgumentIs_eq (v : Vocabulary) (u : Tree) (literal : String) :
    firstArgumentIs v u literal
      = (u.children.find? fun c => v.argumentListTypes.contains c.kind).any fun list =>
        list.children.head?.any fun first => (argumentValue v first).children.isEmpty
          && (argumentValue v first).get? "text" == some (.text literal) := by
  unfold firstArgumentIs
  cases u.children.find? fun c => v.argumentListTypes.contains c.kind with
  | none => rfl
  | some list =>
    dsimp only
    rw [Option.any_some]
    cases list.children <;> rfl

/-- **Whether the first argument of a call is the literal** is seen as before. -/
theorem firstArgumentIs_commented (h : Commented n n')
    (hclear : ∀ m ∈ n' :: n'.keptBelow, ClearCall src m) :
    firstArgumentIs .csharp (converted describe src shift n') "false"
      = firstArgumentIs .csharp (converted describe src shift n) "false" := by
  have hcomments : ∀ k ∈ commentKinds,
      Vocabulary.csharp.argumentListTypes.contains (categoryOf k) = false := by decide +kernel
  simp only [firstArgumentIs_eq, converted_children, List.find?_map, Option.any_map,
    Function.comp_def, converted_kind, List.head?_map]
  refine any_eq_of_rel (h.namedChildren.find?_rel (fun _ _ hc => by rw [hc.kind_eq])
    fun c hc => hcomments c.kind hc.kind) fun list list' hlist' hlist => ?_
  have hmem := List.mem_of_find?_eq_some hlist'
  have hbelow : ∀ m ∈ list' :: list'.keptBelow, ClearCall src m := fun m hm =>
    hclear m (List.mem_cons_of_mem _ (mem_keptBelow_of_child hmem hm))
  have hkind := List.find?_some
    (p := fun c : ParseTree => Vocabulary.csharp.argumentListTypes.contains (categoryOf c.kind))
    hlist'
  have hfirst := hlist.head?_namedChildren ((hbelow list' List.mem_cons_self).2.1 hkind)
  refine any_eq_of_rel hfirst fun first first' hfirst' hargument => ?_
  obtain ⟨value, value', hvalue, hliteral, heq, heq'⟩ :=
    argumentValue_commented shift hargument fun m hm =>
      hbelow m (List.mem_cons_of_mem _ (mem_keptBelow_of_child (List.mem_of_mem_head? hfirst') hm))
  -- The text is the same, but only a leaf shows it.
  rw [heq, heq', isLiteral_converted, isLiteral_converted, hvalue.text_eq]
  by_cases htext : value.text src = "false"
  · rw [hvalue.namedChildren_isEmpty (hliteral.2.2.2 ((hvalue.text_eq src).trans htext))]
  · rw [beq_false_of_ne htext, Bool.and_false, Bool.and_false]

theorem isContextFree_eq (u : Tree) : isContextFree .csharp u
    = (calledMember? .csharp u).any fun m =>
        Vocabulary.csharp.contextFreeMembers.contains m && firstArgumentIs .csharp u "false" := rfl

theorem isContextFree_commented (h : Commented n n')
    (hclear : ∀ m ∈ n' :: n'.keptBelow, ClearCall src m) :
    isContextFree .csharp (converted describe src shift n')
      = isContextFree .csharp (converted describe src shift n) := by
  have hcalled : calledMember? .csharp (converted describe src shift n')
      = calledMember? .csharp (converted describe src shift n) :=
    Listing.calledMember?_commented .csharp h (get?_memberName h (hclear n' List.mem_cons_self))
  rw [isContextFree_eq, isContextFree_eq, hcalled, firstArgumentIs_commented h hclear]

/-- No call of C# is a suspension point by itself. -/
theorem isSuspension_eq_isAwait (u : Tree) : isSuspension .csharp u = isAwait .csharp u := by
  have hnone : (calledMember? .csharp u).any (fun m =>
      Vocabulary.csharp.suspensionMembers.contains m
        && (u.get? "argument_count").any fun n => n.equal false (.int 0)) = false := by
    cases calledMember? .csharp u <;> rfl
  rw [isSuspension, hnone, Bool.or_false]

theorem isSuspension_commented (h : Commented n n') :
    isSuspension .csharp (converted describe src shift n')
      = isSuspension .csharp (converted describe src shift n) := by
  rw [isSuspension_eq_isAwait, isSuspension_eq_isAwait]
  exact Listing.isAwait_commented .csharp h

end Dialect.CSharp

end SyntaxForest
