import Mathlib.Data.Bool.AllAny
import Mathlib.Data.List.DropRight
import SyntaxForest.Inventory.Asynchrony
import SyntaxForest.Inventory.Declarations
import SyntaxForest.Proofs.Text.Joining

/-!
# Names of type references

A type reference is a row of identifiers with points between them. Any of them may have type
arguments, which are references again, blanks may stand between all tokens, and a question mark at
the end. Its simple name is the last identifier of the row. The inventories read it off the text:
what stands before the first `<`, without the question mark, and of this what stands behind the
last point.

This is the simple name just where two things do not happen (`baseTypeName_text`). An identifier
before the last one may have arguments, and then it is taken for the last. And blanks behind the
last point are taken for a part of the name. The name that is read off is told by recursion along
the row (`decisive`): the induction carries the blanks that stand before the rest of the row.
-/

namespace SyntaxForest

/-! ## References -/

/-- The signs between the names of type references. -/
def typeSigns : List Char := ['.', '<', '>', ',', '?']

/-- **An identifier**: no character is blank or a sign. -/
structure Identifier where
  chars : List Char
  ne_nil : chars ≠ []
  plain : ∀ c ∈ chars, Text.isBlank c = false ∧ c ∉ typeSigns

/-- The text of an identifier. -/
def Identifier.text (n : Identifier) : String := String.ofList n.chars

/-- **Blanks between tokens**, or nothing. -/
structure Gap where
  chars : List Char
  blank : ∀ c ∈ chars, Text.isBlank c = true

/-- Nothing between tokens. -/
def Gap.none : Gap := ⟨[], fun _ h => nomatch h⟩

mutual

/-- **A type reference**: parts with points between them, and perhaps a question mark at the end.
Every sign may have blanks before and behind it. -/
inductive TypeReference
  | last (part : TypePart) (mark : Option Gap)
  | qualified (part : TypePart) (before after : Gap) (rest : TypeReference)

/-- **A part of a reference**: an identifier, with or without arguments. -/
inductive TypePart
  | plain (name : Identifier)
  | generic (name : Identifier) (gap : Gap) (arguments : TypeArguments)

/-- **Type arguments**, at least one. -/
inductive TypeArguments
  | one (before : Gap) (type : TypeReference) (after : Gap)
  | more (before : Gap) (type : TypeReference) (after : Gap) (rest : TypeArguments)

end

/-- The question mark at the end of a reference. -/
def markChars : Option Gap → List Char
  | none => []
  | some gap => gap.chars ++ ['?']

mutual

/-- The characters of a reference. -/
def TypeReference.chars : TypeReference → List Char
  | .last part mark => part.chars ++ markChars mark
  | .qualified part before after rest =>
    part.chars ++ (before.chars ++ '.' :: (after.chars ++ rest.chars))

/-- The characters of a part. -/
def TypePart.chars : TypePart → List Char
  | .plain name => name.chars
  | .generic name gap arguments =>
    name.chars ++ (gap.chars ++ '<' :: (arguments.chars ++ ['>']))

/-- The characters of arguments. -/
def TypeArguments.chars : TypeArguments → List Char
  | .one before type after => before.chars ++ (type.chars ++ after.chars)
  | .more before type after rest =>
    before.chars ++ (type.chars ++ (after.chars ++ ',' :: rest.chars))

end

/-- The identifier of a part. -/
def TypePart.name : TypePart → Identifier
  | plain name => name
  | generic name _ _ => name

namespace TypeReference

/-- **A reference as it is written.** -/
def text (r : TypeReference) : String := String.ofList r.chars

/-- **The simple name** of a reference: its last identifier. -/
def simpleName : TypeReference → Identifier
  | last part _ => part.name
  | qualified _ _ _ rest => rest.simpleName

/-- **The name that decides**: that of the first part with arguments, else of the last part. With
it the blanks that stand before it, behind a point or, at first, as `gap`. -/
def decisive (gap : Gap) : TypeReference → Gap × Identifier
  | last part _ => (gap, part.name)
  | qualified (.generic name _ _) _ _ _ => (gap, name)
  | qualified (.plain _) _ after rest => rest.decisive after

/-- **A reference whose simple name decides**, with no blanks before it. -/
def Direct (r : TypeReference) : Prop :=
  (r.decisive .none).1.chars = [] ∧ (r.decisive .none).2.chars = r.simpleName.chars

end TypeReference

/-! ## Cutting at the ends -/

section

variable {α : Type} {p : α → Bool} {l l' : List α}

theorem rdropWhile_append_of_pos (h : ∀ a ∈ l', p a = true) :
    (l ++ l').rdropWhile p = l.rdropWhile p := by
  rw [List.rdropWhile, List.reverse_append, List.dropWhile_append_of_pos, List.rdropWhile]
  exact fun a ha => h a (List.mem_reverse.mp ha)

theorem rdropWhile_append_of_neg (hne : l' ≠ []) (h : ∀ a ∈ l', p a = false) :
    (l ++ l').rdropWhile p = l ++ l' := by
  rw [List.rdropWhile_eq_self_iff]
  intro hall
  rw [List.getLast_append_of_ne_nil _ hne, h _ (List.getLast_mem hne)]
  exact Bool.false_ne_true

end

namespace Text

/-- **A text is trimmed** of what stands behind a name in it. -/
theorem trim_append {front name blanks : List Char} (hne : name ≠ [])
    (hstart : ∃ c rest, front ++ name = c :: rest ∧ isBlank c = false)
    (hplain : ∀ c ∈ name, isBlank c = false) (hblanks : ∀ c ∈ blanks, isBlank c = true) :
    trim (String.ofList (front ++ name ++ blanks)) = String.ofList (front ++ name) := by
  obtain ⟨c, rest, hfirst, hc⟩ := hstart
  have hkept : (front ++ name ++ blanks).dropWhile isBlank = front ++ name ++ blanks := by
    rw [hfirst, List.cons_append, List.dropWhile_cons_of_neg (Bool.eq_false_iff.mp hc)]
  refine String.toList_inj.mp ?_
  rw [toList_trim, String.toList_ofList, String.toList_ofList, hkept,
    rdropWhile_append_of_pos hblanks, rdropWhile_append_of_neg hne hplain]

theorem trimRightBy_eq (p : Char → Bool) (s : String) :
    trimRightBy p s = String.ofList (s.toList.rdropWhile p) := rfl

/-- **What stands behind a character** that does not come again. -/
theorem afterLast_append {sep : Char} {front core : List Char} (h : sep ∉ core) :
    afterLast sep (String.ofList (front ++ sep :: core)) = String.ofList core := by
  have hcore : ∀ c ∈ core.reverse, (c != sep) = true := fun c hc =>
    bne_iff_ne.mpr fun heq => h (heq ▸ List.mem_reverse.mp hc)
  rw [afterLast, String.toList_ofList, List.reverse_append, List.reverse_cons, List.append_assoc,
    List.takeWhile_append_of_pos hcore, List.singleton_append, List.takeWhile_cons_of_neg
      (by simp), List.append_nil, List.reverse_reverse]

/-- A text without the character is behind it. -/
theorem afterLast_of_not_mem {sep : Char} {core : List Char} (h : sep ∉ core) :
    afterLast sep (String.ofList core) = String.ofList core := by
  have hcore : ∀ c ∈ core.reverse, (c != sep) = true := fun c hc =>
    bne_iff_ne.mpr fun heq => h (heq ▸ List.mem_reverse.mp hc)
  rw [afterLast, String.toList_ofList, List.takeWhile_eq_self_iff.mpr hcore, List.reverse_reverse]

end Text

namespace Identifier

variable (n : Identifier)

theorem not_blank : ∀ c ∈ n.chars, Text.isBlank c = false := fun c hc => (n.plain c hc).1

theorem ne_sign {sign : Char} (hsign : sign ∈ typeSigns) : ∀ c ∈ n.chars, c ≠ sign :=
  fun c hc heq => (n.plain c hc).2 (heq ▸ hsign)

end Identifier

/-- Blanks are no signs. -/
theorem Gap.ne_sign (g : Gap) {sign : Char} (hsign : sign ∈ typeSigns) :
    ∀ c ∈ g.chars, c ≠ sign := by
  rintro c hc rfl
  have hblank := g.blank c hc
  have hnone : ∀ sign ∈ typeSigns, Text.isBlank sign = false :=
    List.all_iff_forall_prop.mp (by decide)
  rw [hnone c hsign] at hblank
  cases hblank

namespace TypeReference

/-! ## The front of a reference -/

/-- **What may stand behind a name** in front of the first arguments: blanks, and a question mark
behind them. -/
def IsTrail (tail : List Char) : Prop := ∃ gap : Gap, tail = gap.chars ∨ tail = gap.chars ++ ['?']

theorem isTrail_markChars (mark : Option Gap) : IsTrail (markChars mark) := by
  cases mark with
  | none => exact ⟨.none, .inl rfl⟩
  | some between => exact ⟨between, .inr rfl⟩

/-- What stands in front of the arguments of a part. -/
theorem takeWhile_generic (name : Identifier) (gap : Gap) (arguments : TypeArguments)
    (more : List Char) :
    ((TypePart.generic name gap arguments).chars ++ more).takeWhile (· != '<')
      = name.chars ++ gap.chars := by
  have hname : ∀ c ∈ name.chars, (c != '<') = true := fun c hc =>
    bne_iff_ne.mpr (name.ne_sign (by decide) c hc)
  have hgap : ∀ c ∈ gap.chars, (c != '<') = true := fun c hc =>
    bne_iff_ne.mpr (gap.ne_sign (by decide) c hc)
  rw [TypePart.chars, List.append_assoc, List.append_assoc, List.takeWhile_append_of_pos hname,
    List.takeWhile_append_of_pos hgap, List.cons_append, List.takeWhile_cons_of_neg (by decide),
    List.append_nil]

/-- **The front of a reference** is the name that decides, with the blanks before it. What stands
before these ends with a point. -/
theorem exists_front : ∀ (r : TypeReference) (gap : Gap), ∃ front tail,
    gap.chars ++ r.chars.takeWhile (· != '<')
      = front ++ ((r.decisive gap).1.chars ++ (r.decisive gap).2.chars) ++ tail
    ∧ (front = [] ∧ (r.decisive gap).1 = gap ∨ ∃ before, front = before ++ ['.']) ∧ IsTrail tail
  | last (.plain name) mark, gap => by
    have hall : ∀ c ∈ name.chars ++ markChars mark, (c != '<') = true := by
      intro c hc
      refine bne_iff_ne.mpr ?_
      rcases List.mem_append.mp hc with hc | hc
      · exact name.ne_sign (by decide) c hc
      · cases mark with
        | none => cases hc
        | some between =>
          rcases List.mem_append.mp hc with hc | hc
          · exact between.ne_sign (by decide) c hc
          · rw [List.mem_singleton.mp hc]
            decide
    refine ⟨[], markChars mark, ?_, .inl ⟨rfl, rfl⟩, isTrail_markChars mark⟩
    rw [chars, TypePart.chars, List.takeWhile_eq_self_iff.mpr hall]
    simp only [decisive, TypePart.name, List.nil_append, List.append_assoc]
  | last (.generic name between arguments) mark, gap => by
    refine ⟨[], between.chars, ?_, .inl ⟨rfl, rfl⟩, between, .inl rfl⟩
    rw [chars, takeWhile_generic]
    simp only [decisive, TypePart.name, List.nil_append, List.append_assoc]
  | qualified (.generic name between arguments) before after rest, gap => by
    refine ⟨[], between.chars, ?_, .inl ⟨rfl, rfl⟩, between, .inl rfl⟩
    rw [chars, takeWhile_generic]
    simp only [decisive, List.nil_append, List.append_assoc]
  | qualified (.plain name) before after rest, gap => by
    obtain ⟨front, tail, hfront, hpoint, htail⟩ := exists_front rest after
    have hname : ∀ c ∈ name.chars, (c != '<') = true := fun c hc =>
      bne_iff_ne.mpr (name.ne_sign (by decide) c hc)
    have hbefore : ∀ c ∈ before.chars, (c != '<') = true := fun c hc =>
      bne_iff_ne.mpr (before.ne_sign (by decide) c hc)
    have hafter : ∀ c ∈ after.chars, (c != '<') = true := fun c hc =>
      bne_iff_ne.mpr (after.ne_sign (by decide) c hc)
    have hwhole : (qualified (.plain name) before after rest).chars.takeWhile (· != '<')
        = name.chars ++ (before.chars ++ '.'
          :: (after.chars ++ rest.chars.takeWhile (· != '<'))) := by
      rw [chars, TypePart.chars, List.takeWhile_append_of_pos hname,
        List.takeWhile_append_of_pos hbefore, List.takeWhile_cons_of_pos (by decide),
        List.takeWhile_append_of_pos hafter]
    refine ⟨gap.chars ++ name.chars ++ before.chars ++ '.' :: front, tail, ?_, .inr ?_, htail⟩
    · rw [hwhole, hfront]
      simp only [decisive, List.append_assoc, List.cons_append]
    · rcases hpoint with ⟨rfl, -⟩ | ⟨inner, rfl⟩
      · exact ⟨_, rfl⟩
      · exact ⟨_, (List.append_assoc _ ('.' :: inner) ['.']).symm⟩

/-- A reference begins with an identifier. -/
theorem exists_first (r : TypeReference) : ∃ c rest, r.chars = c :: rest
    ∧ Text.isBlank c = false ∧ (c != '<') = true := by
  obtain ⟨name, more, hname⟩ : ∃ (name : Identifier) (more : List Char),
      r.chars = name.chars ++ more := by
    cases r with
    | last part mark =>
      cases part with
      | plain name => exact ⟨name, _, rfl⟩
      | generic name gap arguments => exact ⟨name, _, List.append_assoc _ _ _⟩
    | qualified part before after rest =>
      cases part with
      | plain name => exact ⟨name, _, rfl⟩
      | generic name gap arguments => exact ⟨name, _, List.append_assoc _ _ _⟩
  obtain ⟨c, cs, hc⟩ := List.exists_cons_of_ne_nil name.ne_nil
  have hin : c ∈ name.chars := hc ▸ List.mem_cons_self
  exact ⟨c, cs ++ more, by rw [hname, hc, List.cons_append], name.not_blank c hin,
    bne_iff_ne.mpr (name.ne_sign (by decide) c hin)⟩

/-! ## Names -/

/-- What is left of a name and what may stand behind it without the question mark. -/
theorem trimRightBy_trim {front : List Char} {name : Identifier} {tail : List Char}
    (hstart : ∃ c rest, front ++ name.chars = c :: rest ∧ Text.isBlank c = false)
    (htail : IsTrail tail) : ∃ gap : Gap,
      Text.trimRightBy (· == '?') (Text.trim (String.ofList (front ++ name.chars ++ tail)))
        = String.ofList (front ++ name.chars ++ gap.chars) := by
  have hmark : ∀ c ∈ name.chars, (c == '?') = false := fun c hc =>
    beq_false_of_ne (name.ne_sign (by decide) c hc)
  obtain ⟨gap, rfl | rfl⟩ := htail
  · refine ⟨.none, ?_⟩
    rw [Text.trim_append name.ne_nil hstart name.not_blank gap.blank, Text.trimRightBy_eq,
      String.toList_ofList, rdropWhile_append_of_neg name.ne_nil hmark]
    exact congrArg String.ofList (List.append_nil _).symm
  · refine ⟨gap, ?_⟩
    have hgap : ∀ c ∈ name.chars ++ gap.chars, (c == '?') = false := by
      intro c hc
      rcases List.mem_append.mp hc with hc | hc
      · exact hmark c hc
      · exact beq_false_of_ne (gap.ne_sign (by decide) c hc)
    have hlast : Text.trim (String.ofList (front ++ name.chars ++ gap.chars ++ ['?'] ++ []))
        = String.ofList (front ++ name.chars ++ gap.chars ++ ['?']) := by
      refine Text.trim_append (List.cons_ne_nil _ _) ?_ (List.forall_mem_singleton.mpr rfl)
        fun _ h => absurd h List.not_mem_nil
      obtain ⟨c, rest, hfirst, hc⟩ := hstart
      exact ⟨c, rest ++ gap.chars ++ ['?'], by rw [hfirst]; rfl, hc⟩
    rw [List.append_nil, List.append_assoc] at hlast
    rw [hlast, Text.trimRightBy_eq, String.toList_ofList, ← List.append_assoc,
      rdropWhile_append_of_pos (List.forall_mem_singleton.mpr rfl), List.append_assoc front,
      rdropWhile_append_of_neg (List.append_ne_nil_of_left_ne_nil name.ne_nil _) hgap]

/-- **The name that is read off a reference** is the one that decides, with the blanks before
it. -/
theorem baseTypeName_text (r : TypeReference) : baseTypeName r.text
    = String.ofList ((r.decisive .none).1.chars ++ (r.decisive .none).2.chars) := by
  obtain ⟨front, tail, hfront, hpoint, htail⟩ := exists_front r .none
  generalize r.decisive .none = read at hfront hpoint ⊢
  obtain ⟨gap, name⟩ := read
  dsimp only at hfront hpoint ⊢
  rw [← List.append_assoc front] at hfront
  have hhead : Text.beforeFirst '<' r.text
      = String.ofList (front ++ gap.chars ++ name.chars ++ tail) := by
    rw [Text.beforeFirst, text, String.toList_ofList, ← hfront]
    rfl
  have hstart : ∃ c rest,
      front ++ gap.chars ++ name.chars = c :: rest ∧ Text.isBlank c = false := by
    obtain ⟨c, rest, hr, hblank, hopen⟩ := r.exists_first
    rw [hr, List.takeWhile_cons_of_pos (p := (· != '<')) hopen] at hfront
    have hne : front ++ gap.chars ++ name.chars ≠ [] :=
      List.append_ne_nil_of_right_ne_nil _ name.ne_nil
    obtain ⟨c', rest', hc'⟩ := List.exists_cons_of_ne_nil hne
    rw [hc', List.cons_append] at hfront
    exact ⟨c', rest', hc', (List.cons.inj hfront).1 ▸ hblank⟩
  obtain ⟨left, hleft⟩ := trimRightBy_trim hstart htail
  have hpoints : '.' ∉ gap.chars ++ name.chars := by
    intro hin
    rcases List.mem_append.mp hin with hin | hin
    · exact gap.ne_sign (by decide) _ hin rfl
    · exact name.ne_sign (by decide) _ hin rfl
  unfold baseTypeName
  dsimp only
  rw [hhead, hleft, Text.trim_append name.ne_nil hstart name.not_blank left.blank]
  rcases hpoint with ⟨rfl, -⟩ | ⟨before, rfl⟩
  · exact Text.afterLast_of_not_mem hpoints
  · rw [List.append_assoc, List.append_assoc]
    exact Text.afterLast_append hpoints

/-- **A reference is read as its simple name** if and only if that is the name that decides, and
no blanks stand before it. -/
theorem baseTypeName_eq_iff (r : TypeReference) :
    baseTypeName r.text = r.simpleName.text ↔ r.Direct := by
  rw [baseTypeName_text, Identifier.text, String.ofList_inj, Direct]
  constructor
  · intro h
    have hgap : (r.decisive .none).1.chars = [] := by
      refine List.eq_nil_iff_forall_not_mem.mpr fun c hc => ?_
      have hin : c ∈ r.simpleName.chars := h ▸ List.mem_append_left _ hc
      have hblank := (r.decisive .none).1.blank c hc
      rw [r.simpleName.not_blank c hin] at hblank
      cases hblank
    rw [hgap] at h
    exact ⟨hgap, h⟩
  · rintro ⟨hgap, hname⟩
    rw [hgap, hname, List.nil_append]

/-! ## What is recognised by a name -/

variable {r : TypeReference} {v : Vocabulary} {t : Tree}

theorem text_ne_empty (r : TypeReference) : r.text ≠ "" := by
  obtain ⟨c, rest, hr, -⟩ := r.exists_first
  rw [text, hr]
  exact fun h => List.cons_ne_nil _ _ (String.ofList_eq_empty_iff.mp h)

/-- **A method is recognised** by the type that it returns. -/
theorem isAsyncMethod_of_direct (h : r.Direct) (ht : t.get? "return_type" = some (.text r.text))
    (hname : r.simpleName.text ∈ v.asyncReturnTypes) : isAsyncMethod v t = true := by
  unfold isAsyncMethod
  rw [ht, Bool.or_eq_true]
  refine .inr ?_
  show (r.text != "" && v.asyncReturnTypes.contains (baseTypeName r.text)) = true
  rw [(baseTypeName_eq_iff r).mpr h, List.contains_iff_mem.mpr hname,
    bne_iff_ne.mpr r.text_ne_empty]
  rfl

/-- **A call is recognised** by the type that it is made on. -/
theorem joinedMember?_of_direct (h : r.Direct) (ht : t.get? "receiver" = some (.text r.text))
    (hname : r.simpleName.text ∈ v.joinReceivers) : joinedMember? v t = calledMember? v t := by
  unfold joinedMember?
  rw [ht]
  show (if v.joinReceivers.contains (baseTypeName r.text) then _ else _) = _
  rw [(baseTypeName_eq_iff r).mpr h, if_pos (List.contains_iff_mem.mpr hname)]

/-- The name of an attribute without an `@` is that of the type, but for the suffix. -/
theorem attributeBaseName_eq {a b : String} (ha : '@' ∉ a.toList) (hb : '@' ∉ b.toList)
    (h : baseTypeName a = baseTypeName b) : attributeBaseName a = attributeBaseName b := by
  have hkept : ∀ {s : String}, '@' ∉ s.toList →
      String.ofList (s.toList.dropWhile (· == '@')) = s := by
    intro s hs
    rw [List.dropWhile_eq_self_iff.mpr, String.ofList_toList]
    intro hlen hfirst
    exact hs (eq_of_beq hfirst ▸ List.getElem_mem hlen)
  unfold attributeBaseName
  rw [hkept ha, hkept hb, h]

theorem simpleName_subset : ∀ r : TypeReference, r.simpleName.chars ⊆ r.chars
  | last (.plain _) _ => List.subset_append_left _ _
  | last (.generic _ _ _) _ =>
    fun _ hc => List.mem_append_left _ (List.mem_append_left _ hc)
  | qualified _ _ _ rest => fun _ hc =>
    List.mem_append_right _ (List.mem_append_right _ (List.mem_cons_of_mem _
      (List.mem_append_right _ (simpleName_subset rest hc))))

theorem baseTypeName_identifier (n : Identifier) : baseTypeName n.text = n.text := by
  have hdirect : (last (.plain n) none).Direct := ⟨rfl, rfl⟩
  have hread := (baseTypeName_eq_iff _).mpr hdirect
  rwa [text, chars, TypePart.chars, markChars, List.append_nil] at hread

/-- **An attribute is recognised** by its simple name. -/
theorem hasTestAttribute_of_direct (h : r.Direct) (hat : '@' ∉ r.chars) {names : List String}
    (ht : t.get? "attributes" = some (.text (Text.join ", " names))) (hin : r.text ∈ names)
    (hwhole : IsWhole r.text) (hname : attributeBaseName r.simpleName.text ∈ v.testAttributes) :
    hasTestAttribute v t = true := by
  have hlisted : r.text ∈ splitProperty "," (t.get? "attributes") := by
    rw [ht]
    show r.text ∈ splitList "," (Text.join ", " names)
    rw [splitList_join, List.mem_flatMap]
    exact ⟨r.text, hin, hwhole.splitList ▸ List.mem_cons_self⟩
  have hread : attributeBaseName r.text = attributeBaseName r.simpleName.text := by
    refine attributeBaseName_eq ?_ ?_ ?_
    · rwa [text, String.toList_ofList]
    · rw [Identifier.text, String.toList_ofList]
      exact fun hc => hat (r.simpleName_subset hc)
    · rw [(baseTypeName_eq_iff r).mpr h, baseTypeName_identifier]
  refine List.any_eq_true.mpr ⟨r.text, hlisted, ?_⟩
  rw [hread]
  exact List.contains_iff_mem.mpr hname

/-- **The name of a type reference.** What is read off its text is the name of the first part that
has arguments, or else of the last part, with the blanks that stand before it. This is the simple
name of the reference if and only if the reference is direct. If it is, then methods that return
it, calls that are made on it and attributes that it names are recognised by its simple name. -/
theorem baseTypeName_reference (r : TypeReference) :
    baseTypeName r.text
        = String.ofList ((r.decisive .none).1.chars ++ (r.decisive .none).2.chars)
      ∧ (baseTypeName r.text = r.simpleName.text ↔ r.Direct)
      ∧ (r.Direct → ∀ (v : Vocabulary) (t : Tree),
        (t.get? "return_type" = some (.text r.text) → r.simpleName.text ∈ v.asyncReturnTypes →
          isAsyncMethod v t = true)
        ∧ (t.get? "receiver" = some (.text r.text) → r.simpleName.text ∈ v.joinReceivers →
          joinedMember? v t = calledMember? v t)
        ∧ ∀ names, t.get? "attributes" = some (.text (Text.join ", " names)) → r.text ∈ names →
          IsWhole r.text → '@' ∉ r.chars →
          attributeBaseName r.simpleName.text ∈ v.testAttributes → hasTestAttribute v t = true) :=
  ⟨baseTypeName_text r, baseTypeName_eq_iff r, fun h _ _ =>
    ⟨isAsyncMethod_of_direct h, joinedMember?_of_direct h,
      fun _ ht hin hwhole hat => hasTestAttribute_of_direct h hat ht hin hwhole⟩⟩

/-! ### References with spaces and with arguments inside -/

/-- One space. -/
def oneSpace : Gap := ⟨[' '], List.forall_mem_singleton.mpr rfl⟩

def systemName : Identifier :=
  ⟨"System".toList, by decide, List.all_iff_forall_prop.mp (by decide)⟩

def taskName : Identifier :=
  ⟨"Task".toList, by decide, List.all_iff_forall_prop.mp (by decide)⟩

def intName : Identifier :=
  ⟨"int".toList, by decide, List.all_iff_forall_prop.mp (by decide)⟩

/-- The arguments `<int?>`. -/
def intArguments : TypeArguments := .one .none (last (.plain intName) (some .none)) .none

/-- The reference `System .Task <int?> ?`. -/
def spacedTask : TypeReference :=
  qualified (.plain systemName) oneSpace .none
    (last (.generic taskName oneSpace intArguments) (some oneSpace))

/-- A method that returns it is recognised. -/
theorem baseTypeName_reference_task : spacedTask.text = "System .Task <int?> ?"
    ∧ baseTypeName spacedTask.text = "Task"
    ∧ isAsyncMethod .csharp (.node "MethodDeclaration" [("return_type", .text spacedTask.text)] [])
      = true := by
  obtain ⟨-, hread, hrecognised⟩ := baseTypeName_reference spacedTask
  have hdirect : spacedTask.Direct := ⟨rfl, rfl⟩
  have hname : spacedTask.simpleName.text = "Task" := by decide
  refine ⟨by decide, (hread.mpr hdirect).trans hname, ?_⟩
  exact (hrecognised hdirect .csharp _).1 rfl (hname ▸ by decide)

/-- The reference `System<int?>.Task`. -/
def innerTask : TypeReference :=
  qualified (.generic systemName .none intArguments) .none .none (last (.plain taskName) none)

/-- The reference `System . Task`. -/
def loneTask : TypeReference :=
  qualified (.plain systemName) oneSpace oneSpace (last (.plain taskName) none)

/-- **References that are not read as their simple names**: one with arguments inside, and one
with a space behind the point. A method that returns the latter is not recognised. -/
theorem baseTypeName_astray :
    innerTask.text = "System<int?>.Task" ∧ innerTask.simpleName.text = "Task"
      ∧ baseTypeName innerTask.text = "System"
      ∧ loneTask.text = "System . Task" ∧ loneTask.simpleName.text = "Task"
      ∧ baseTypeName loneTask.text = " Task"
      ∧ isAsyncMethod .csharp (.node "MethodDeclaration" [("return_type", .text loneTask.text)] [])
        = false := by
  decide

end TypeReference

end SyntaxForest
