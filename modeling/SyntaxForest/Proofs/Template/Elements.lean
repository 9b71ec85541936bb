import SyntaxForest.Proofs.Template.Shortening
import SyntaxForest.Proofs.Template.Spelling

/-!
# Well-formed elements

The scanner does not parse markup. To find where an element ends it counts the tags of the
element's own name, and reads nothing of the others but their names. For an element that is
well formed (`IsElement`) the count comes out right, whatever the element holds
(`elementEnd_element`): a tag of the same name that is closed at once opens nothing, one whose
name only begins alike is not counted, and every pair of the same name inside is counted up
and down again (`Markup.passed`).
-/

namespace SyntaxForest.Template.Lexical

variable {src : Bytes} {name attributes blanks text : List UInt8} {b : UInt8}
variable {i stop depth : Nat}

/-! ## Tags -/

/-- **The name of a tag.** -/
structure IsTagName (name : List UInt8) : Prop where
  starts : name.head?.any Bytes.startsWord = true
  all : ∀ b ∈ name, inTagName b = true

/-- **What stands in a tag behind its name**: attributes, whose values are quoted. A value may
hold anything but its own quote and the mark that opens a tag; between the values there are
no quotes, and neither of the marks of a tag. -/
inductive Attributes : List UInt8 → Prop
  | nil : Attributes []
  | byte {b : UInt8} {rest : List UInt8} : b ∉ [0x22, 0x27, 0x3C, 0x3E] → Attributes rest →
      Attributes (b :: rest)
  | value {q : UInt8} {value rest : List UInt8} : q ∈ [0x22, 0x27] → q ∉ value →
      0x3C ∉ value → Attributes rest → Attributes (q :: (value ++ q :: rest))

/-- A start tag. -/
def startTag (name attributes : List UInt8) : List UInt8 :=
  0x3C :: (name ++ attributes ++ [0x3E])

/-- An end tag. -/
def endTag (name blanks : List UInt8) : List UInt8 :=
  0x3C :: (0x2F :: (name ++ blanks) ++ [0x3E])

/-- Whether a tag closes its element at once, by the slash at its end. -/
def closesItself (attributes : List UInt8) : Bool := attributes.getLast? == some 0x2F

/-- Whether the elements of a name have no end tag. -/
def isVoid (name : List UInt8) : Bool :=
  voidElements.contains (Text.lower (Text.Utf8.decodeLenient name.toArray))

/-- **The parts of a start tag**: the name ends where the attributes begin. -/
structure IsStart (name attributes : List UInt8) : Prop where
  isName : IsTagName name
  apart : attributes.head?.all (!inTagName ·) = true
  behind : Attributes attributes

/-- **Well-formed markup**, or, if `one` says so, one element of it. -/
inductive Markup : (one : Bool) → List UInt8 → Prop
  | single {name attributes : List UInt8} : IsStart name attributes →
      (closesItself attributes || isVoid name) = true → Markup true (startTag name attributes)
  | pair {name attributes inner blanks : List UInt8} : IsStart name attributes →
      (closesItself attributes || isVoid name) = false → Markup false inner →
      (∀ b ∈ blanks, Bytes.isBlank b = true) →
      Markup true (startTag name attributes ++ (inner ++ endTag name blanks))
  | nil : Markup false []
  | text {b : UInt8} {rest : List UInt8} : b ≠ 0x3C → Markup false rest →
      Markup false (b :: rest)
  | element {e rest : List UInt8} : Markup true e → Markup false rest →
      Markup false (e ++ rest)

/-- **A well-formed element**: one tag that closes itself or is of a name that has no end tag; or
a start tag, text and well-formed elements, and an end tag of the same name. -/
abbrev IsElement (e : List UInt8) : Prop := Markup true e

/-! ## The end of a tag -/

/-- Bytes that no quote and no mark of a tag is among. -/
theorem Attributes.append {rest : List UInt8} (hrest : Attributes rest)
    (h : ∀ b ∈ text, b ∉ [0x22, 0x27, 0x3C, 0x3E]) : Attributes (text ++ rest) := by
  induction text with
  | nil => exact hrest
  | cons b text ih =>
    exact .byte (h b (List.mem_cons_self ..)) (ih fun c hc => h c (List.mem_cons_of_mem _ hc))

/-- Attributes hold no opening angle. -/
theorem Attributes.no_tag (h : Attributes attributes) : 0x3C ∉ attributes := by
  induction h with
  | nil => exact List.not_mem_nil
  | @byte b rest hb _ ih =>
    refine List.not_mem_cons_of_ne_of_not_mem ?_ ih
    rintro rfl
    exact hb (by decide)
  | @value q value rest hq _ hvalue _ ih =>
    have hne : 0x3C ≠ q := by
      rintro rfl
      revert hq
      decide
    exact List.not_mem_cons_of_ne_of_not_mem hne fun hin =>
      (List.mem_append.mp hin).elim hvalue (List.not_mem_cons_of_ne_of_not_mem hne ih)

/-- A byte of a tag's name is no quote and no mark of a tag. -/
theorem not_mem_of_inTagName (h : inTagName b = true) : b ∉ [0x22, 0x27, 0x3C, 0x3E] := by
  rintro hmem
  simp only [List.mem_cons, List.not_mem_nil, or_false] at hmem
  rcases hmem with rfl | rfl | rfl | rfl <;> revert h <;> decide

theorem not_mem_of_isBlank (h : Bytes.isBlank b = true) : b ∉ [0x22, 0x27, 0x3C, 0x3E] := by
  rintro hmem
  simp only [List.mem_cons, List.not_mem_nil, or_false] at hmem
  rcases hmem with rfl | rfl | rfl | rfl <;> revert h <;> decide

/-- **A tag ends** at the first mark that is not quoted. -/
theorem Attributes.tagEndFrom (ha : Attributes attributes)
    (h : src.Spells (attributes ++ [0x3E]) i) (hlt : i + attributes.length < stop) :
    (tagEndFrom src i stop).map (·.1) = .ok (i + attributes.length + 1) := by
  induction ha generalizing i with
  | nil =>
    have hi : i < stop := hlt
    rw [Lexical.tagEndFrom, if_pos hi, bind_of_eq (byteAt_of_eq h.head)]
    rfl
  | @byte b rest hb _ ih =>
    rw [List.length_cons] at hlt ⊢
    simp only [List.mem_cons, List.not_mem_nil, or_false, not_or] at hb
    have hquote : ¬ (b == 0x22 || b == 0x27) = true := by
      simp only [Bool.or_eq_true, beq_iff_eq, hb.1, hb.2.1, or_self, not_false_eq_true]
    rw [Lexical.tagEndFrom, if_pos (by omega), bind_of_eq (byteAt_of_eq h.head), if_neg hquote,
      if_neg (mt beq_iff_eq.mp hb.2.2.2)]
    refine (map_bind_of_eq fun _ => rfl).trans ((ih h.tail (by omega)).trans ?_)
    exact congrArg Except.ok (by omega)
  | @value q value rest hq hquote hvalue _ ih =>
    rw [List.length_cons, List.length_append, List.length_cons] at hlt ⊢
    have htext : q :: (value ++ q :: rest) ++ [0x3E] = q :: (value ++ [q] ++ (rest ++ [0x3E])) := by
      rw [List.cons_append, List.append_assoc, List.append_assoc]
      rfl
    rw [htext] at h
    have hquotes : (q == 0x22 || q == 0x27) = true := by
      rcases List.mem_cons.mp hq with rfl | hq
      · rfl
      · rw [List.mem_singleton.mp hq]
        rfl
    have hfind : src.find [q] (i + 1) stop = some (i + 1 + value.length) :=
      h.tail.left.find_byte hquote (by omega)
    have hrest := h.tail.right
    rw [List.length_append, List.length_singleton, ← Nat.add_assoc] at hrest
    rw [Lexical.tagEndFrom, if_pos (by omega), bind_of_eq (byteAt_of_eq h.head), if_pos hquotes]
    split
    · next close hclose =>
      obtain rfl := Option.some.inj (hfind.symm.trans hclose)
      refine (map_bind_of_eq fun _ => rfl).trans ((ih hrest (by omega)).trans ?_)
      exact congrArg Except.ok (by omega)
    · next hnone => exact absurd (hfind.symm.trans hnone) (Option.some_ne_none _)

theorem startTag_length : (startTag name attributes).length = (name ++ attributes).length + 2 := by
  rw [startTag, List.length_cons, List.length_append, List.length_singleton]

theorem endTag_length : (endTag name blanks).length = (name ++ blanks).length + 3 := by
  rw [endTag, List.length_cons, List.length_append, List.length_cons, List.length_singleton]

/-- **A start tag ends at its own angle**, and quoted values are passed. -/
theorem IsStart.tagEnd (hs : IsStart name attributes) (h : src.Spells (startTag name attributes) i)
    (hle : i + (startTag name attributes).length ≤ stop) :
    (tagEnd src i stop).map (·.1) = .ok (i + (startTag name attributes).length) := by
  rw [startTag_length] at hle ⊢
  have hall := hs.behind.append fun b hb => not_mem_of_inTagName (hs.isName.all b hb)
  refine (hall.tagEndFrom h.tail (by omega)).trans (congrArg Except.ok (by omega))

/-- Behind the mark of an end tag stand no other marks, and no quotes. -/
theorem IsTagName.endTag_attributes (hname : IsTagName name)
    (hblanks : ∀ b ∈ blanks, Bytes.isBlank b = true) : Attributes (0x2F :: (name ++ blanks)) := by
  have hplain : ∀ b ∈ 0x2F :: (name ++ blanks), b ∉ [0x22, 0x27, 0x3C, 0x3E] := by
    intro b hb
    rcases List.mem_cons.mp hb with rfl | hb
    · decide
    · rcases List.mem_append.mp hb with hb | hb
      · exact not_mem_of_inTagName (hname.all b hb)
      · exact not_mem_of_isBlank (hblanks b hb)
  have hall := Attributes.nil.append hplain
  rwa [List.append_nil] at hall

/-- An end tag ends at its angle. -/
theorem IsTagName.tagEnd_endTag (hname : IsTagName name)
    (hblanks : ∀ b ∈ blanks, Bytes.isBlank b = true) (h : src.Spells (endTag name blanks) i)
    (hle : i + (endTag name blanks).length ≤ stop) :
    (tagEnd src i stop).map (·.1) = .ok (i + (endTag name blanks).length) := by
  have hlen : (0x2F :: (name ++ blanks)).length = (name ++ blanks).length + 1 := List.length_cons
  rw [endTag_length] at hle ⊢
  refine ((hname.endTag_attributes hblanks).tagEndFrom h.tail (by omega)).trans ?_
  exact congrArg Except.ok (by omega)

/-! ## The name of a tag -/

/-- **The name of a tag ends** where what is behind it begins, or with the tag. -/
theorem tagNameEnd_eq (hname : IsTagName name) (hapart : text.head?.all (!inTagName ·) = true)
    (h : src.Spells (name ++ text ++ [0x3E]) i) (hle : i + name.length ≤ stop) :
    tagNameEnd src i stop = .ok ⟨i + name.length, Nat.le_add_right _ _⟩ := by
  rw [List.append_assoc] at h
  have hb : inTagName (text.headD 0x3E) = false := by
    cases text with
    | nil => decide
    | cons b text => exact (Bool.not_eq_true' _).mp hapart
  refine skipWhile_spells (b := text.headD 0x3E) ?_ hname.all hb hle
  exact Bytes.spells_append.mpr
    ⟨h.left, Bytes.spells_cons.mpr ⟨h.right.first, Bytes.spells_nil⟩⟩

/-- **Which name a tag has** is read off its bytes. -/
theorem hasTagName_eq {other : List UInt8} (hname : IsTagName name)
    (hapart : text.head?.all (!inTagName ·) = true)
    (h : src.Spells (name ++ text ++ [0x3E]) i) (hle : i + name.length ≤ stop) :
    hasTagName src other.toArray i stop = .ok (decide (name = other)) := by
  rw [hasTagName, bind_of_eq (tagNameEnd_eq hname hapart h hle)]
  rw [List.append_assoc] at h
  refine congrArg Except.ok (Bool.eq_iff_iff.mpr ?_)
  rw [Bool.and_eq_true, beq_iff_eq, beq_iff_eq, decide_eq_true_iff, List.size_toArray]
  refine ⟨fun ⟨hlen, hslice⟩ => ?_, ?_⟩
  · rw [← Nat.add_left_cancel hlen, h.left.slice_eq] at hslice
    exact congrArg Array.toList hslice
  · rintro rfl
    exact ⟨rfl, h.left.slice_eq⟩

/-- Blanks are no part of a name. -/
theorem head?_blanks (h : ∀ b ∈ blanks, Bytes.isBlank b = true) :
    blanks.head?.all (!inTagName ·) = true := by
  cases blanks with
  | nil => rfl
  | cons b blanks =>
    have hb := h b (List.mem_cons_self ..)
    simp only [Bytes.isBlank, Bool.or_eq_true, beq_iff_eq] at hb
    rw [List.head?_cons, Option.all_some]
    rcases hb with ((rfl | rfl) | rfl) | rfl <;> decide

/-! ## Counting -/

/-- What is counted at the mark of a tag, and what is counted behind it. -/
def countTag (src name : Bytes) (stop depth lt : Nat) : Scan Nat := do
  let isEnd ← isAt src 0x2F (lt + 1) stop
  if ← hasTagName src name (if isEnd then lt + 2 else lt + 1) stop then
    let next ← (tagEnd src lt stop).map (·.1)
    if isEnd then
      if depth ≤ 1 then return next
      else (elementEndFrom src name stop (depth - 1) next).map (·.1)
    else
      let closed := (← byteBefore src next 2) == 0x2F
      (elementEndFrom src name stop (if closed then depth else depth + 1) next).map (·.1)
  else (elementEndFrom src name stop depth (lt + 1)).map (·.1)

/-- Where no tag is left, the element goes on to the end of the range. -/
theorem elementEndFrom_none {name : Bytes} (hnone : src.find [0x3C] i stop = none) :
    (elementEndFrom src name stop depth i).map (·.1) = .ok stop := by
  rw [elementEndFrom]
  split
  · split
    · rfl
    · next hsome => exact absurd (hnone.symm.trans hsome) (Option.some_ne_none _).symm
  · rfl

/-- **The search for the end of an element** goes on to the next mark of a tag. -/
theorem elementEndFrom_some {name : Bytes} {lt : Nat} (hsome : src.find [0x3C] i stop = some lt) :
    (elementEndFrom src name stop depth i).map (·.1) = countTag src name stop depth lt := by
  have hb := Bytes.find_bounds hsome
  have hin : lt + 1 ≤ stop := hb.2.1
  rw [elementEndFrom, if_pos (by omega)]
  split
  · next hnone => exact absurd (hnone.symm.trans hsome) (Option.some_ne_none _).symm
  · next lt' hfound =>
    obtain rfl : lt = lt' := Option.some.inj (hsome.symm.trans hfound)
    show Except.map _ (isAt src 0x2F (lt + 1) stop >>= _) = (isAt src 0x2F (lt + 1) stop >>= _)
    cases isAt src 0x2F (lt + 1) stop with
    | error e => rfl
    | ok isEnd =>
      show Except.map _ (hasTagName src name (if isEnd then lt + 2 else lt + 1) stop >>= _)
        = (hasTagName src name (if isEnd then lt + 2 else lt + 1) stop >>= _)
      cases hasTagName src name (if isEnd then lt + 2 else lt + 1) stop with
      | error e => rfl
      | ok named =>
        cases named with
        | false =>
          show Except.map _ (elementEndFrom src name stop depth (lt + 1) >>= _) = Except.map _ _
          exact map_bind_of_eq fun _ => rfl
        | true =>
          show Except.map _ (tagEnd src lt stop >>= _) = ((tagEnd src lt stop).map (·.1) >>= _)
          cases tagEnd src lt stop with
          | error e => rfl
          | ok next =>
            obtain ⟨next, hnext⟩ := next
            cases isEnd with
            | true =>
              show Except.map _ (if depth ≤ 1 then _ else _) = (if depth ≤ 1 then _ else _)
              split
              · rfl
              · show Except.map _ (elementEndFrom src name stop (depth - 1) next >>= _)
                  = Except.map _ _
                exact map_bind_of_eq fun _ => rfl
            | false =>
              show Except.map _ (byteBefore src next 2 >>= _) = (byteBefore src next 2 >>= _)
              cases byteBefore src next 2 with
              | error e => rfl
              | ok b =>
                show Except.map _ (elementEndFrom src name stop
                  (if b == 0x2F then depth else depth + 1) next >>= _) = Except.map _ _
                exact map_bind_of_eq fun _ => rfl

/-- What holds no mark of a tag is passed. -/
theorem elementEndFrom_of_free {name : Bytes} (h : src.Spells text i) (hfree : 0x3C ∉ text) :
    (elementEndFrom src name stop depth i).map (·.1)
      = (elementEndFrom src name stop depth (i + text.length)).map (·.1) := by
  induction text generalizing i with
  | nil => rfl
  | cons b text ih =>
    have hne : src[i]? ≠ some 0x3C := fun heq =>
      hfree (Option.some.inj (h.head.symm.trans heq) ▸ List.mem_cons_self ..)
    have hrest := ih h.tail fun hin => hfree (List.mem_cons_of_mem _ hin)
    rw [Nat.add_right_comm, Nat.add_assoc] at hrest
    rw [List.length_cons, ← hrest]
    have hfind : src.find [0x3C] i stop = src.find [0x3C] (i + 1) stop := Bytes.find_succ hne
    cases hnext : src.find [0x3C] (i + 1) stop with
    | none => rw [elementEndFrom_none hnext, elementEndFrom_none (hfind.trans hnext)]
    | some lt => rw [elementEndFrom_some hnext, elementEndFrom_some (hfind.trans hnext)]

variable {other : List UInt8} {one : Bool}

/-- A tag name begins as a word. -/
theorem IsTagName.exists_cons (h : IsTagName name) :
    ∃ b rest, name = b :: rest ∧ Bytes.startsWord b = true := by
  cases name with
  | nil => exact absurd h.starts (by decide)
  | cons b rest => exact ⟨b, rest, rfl, h.starts⟩

/-- Behind the mark of a start tag stands no slash. -/
theorem IsStart.exists_first (hs : IsStart name attributes)
    (h : src.Spells (startTag name attributes) i) : ∃ b, src[i + 1]? = some b ∧ b ≠ 0x2F := by
  obtain ⟨b, rest, rfl, hb⟩ := hs.isName.exists_cons
  refine ⟨b, h.tail.head, ?_⟩
  rintro rfl
  exact absurd hb (by decide)

/-- **An element begins** with a mark and a name. -/
theorem IsElement.exists_cons {e : List UInt8} (he : IsElement e) :
    ∃ b rest, e = 0x3C :: b :: rest ∧ Bytes.startsWord b = true := by
  cases he with
  | single hs _ =>
    obtain ⟨b, rest, rfl, hb⟩ := hs.isName.exists_cons
    exact ⟨b, _, rfl, hb⟩
  | pair hs _ _ _ =>
    obtain ⟨b, rest, rfl, hb⟩ := hs.isName.exists_cons
    exact ⟨b, _, rfl, hb⟩

/-- **The byte before the end of a start tag** tells whether the tag closes itself. -/
theorem IsStart.exists_last (hs : IsStart name attributes)
    (h : src.Spells (startTag name attributes) i) :
    ∃ b, byteBefore src (i + (startTag name attributes).length) 2 = .ok b ∧
      (b == 0x2F) = closesItself attributes := by
  have hlen := @startTag_length name attributes
  obtain ⟨first, rest, hname, -⟩ := hs.isName.exists_cons
  have hne : name ++ attributes ≠ [] := by
    rw [hname]
    exact List.cons_ne_nil _ _
  obtain ⟨b, hb⟩ := Option.ne_none_iff_exists'.mp (mt List.getLast?_eq_none_iff.mp hne)
  have hpos := List.length_pos_of_ne_nil hne
  refine ⟨b, ?_, ?_⟩
  · have hat := h.tail.left.getElem? (Nat.sub_lt hpos Nat.one_pos)
    rw [← List.getLast?_eq_getElem?, hb] at hat
    rw [byteBefore, if_pos (by omega), ← byteAt_of_eq hat]
    congr 1
    omega
  · rw [closesItself]
    rw [List.getLast?_append] at hb
    cases hlast : attributes.getLast? with
    | some c =>
      rw [hlast] at hb
      obtain rfl : c = b := Option.some.inj hb
      rfl
    | none =>
      rw [hlast] at hb
      refine beq_eq_false_iff_ne.mpr ?_
      rintro rfl
      exact absurd (hs.isName.all _ (List.mem_of_getLast? hb)) (by decide)

/-- **A start tag** counts if it has the name and does not close itself. -/
theorem IsStart.elementEndFrom_eq (hs : IsStart name attributes)
    (h : src.Spells (startTag name attributes) i)
    (hle : i + (startTag name attributes).length ≤ stop) :
    (elementEndFrom src other.toArray stop depth i).map (·.1)
      = (elementEndFrom src other.toArray stop
          (if decide (name = other) && !closesItself attributes then depth + 1 else depth)
          (i + (startTag name attributes).length)).map (·.1) := by
  have hlen := @startTag_length name attributes
  have happ := @List.length_append _ name attributes
  have hfound : src.find [0x3C] i stop = some i := Bytes.find_self h.head (by omega)
  obtain ⟨first, hfirst, hslash⟩ := hs.exists_first h
  obtain ⟨last, hlast, hcloses⟩ := hs.exists_last h
  rw [elementEndFrom_some hfound, countTag, bind_of_eq (isAt_of_ne hfirst hslash)]
  show (Lexical.hasTagName src other.toArray (i + 1) stop >>= _) = _
  rw [bind_of_eq (hasTagName_eq hs.isName hs.apart h.tail (by omega))]
  by_cases hname : name = other
  · rw [decide_eq_true hname]
    show ((Lexical.tagEnd src i stop).map _ >>= _) = _
    rw [bind_of_eq (hs.tagEnd h hle)]
    show (byteBefore src _ 2 >>= _) = _
    rw [bind_of_eq hlast, hcloses]
    cases closesItself attributes <;> rfl
  · have hall := hs.behind.append fun b hb => not_mem_of_inTagName (hs.isName.all b hb)
    have hfree : 0x3C ∉ name ++ attributes ++ [0x3E] := fun hin =>
      (List.mem_append.mp hin).elim hall.no_tag (by decide)
    rw [decide_eq_false hname]
    refine (elementEndFrom_of_free h.tail hfree).trans ?_
    rw [startTag, List.length_cons, Nat.add_right_comm, Nat.add_assoc]
    rfl

/-- **An end tag** counts if it has the name: it ends the element, or leaves one open less. -/
theorem elementEndFrom_endTag (hname : IsTagName name)
    (hblanks : ∀ b ∈ blanks, Bytes.isBlank b = true) (h : src.Spells (endTag name blanks) i)
    (hle : i + (endTag name blanks).length ≤ stop) :
    (elementEndFrom src other.toArray stop depth i).map (·.1)
      = if name = other then
          if depth ≤ 1 then .ok (i + (endTag name blanks).length)
          else (elementEndFrom src other.toArray stop (depth - 1)
            (i + (endTag name blanks).length)).map (·.1)
        else (elementEndFrom src other.toArray stop depth
          (i + (endTag name blanks).length)).map (·.1) := by
  have hlen := @endTag_length name blanks
  have happ := @List.length_append _ name blanks
  have hfound : src.find [0x3C] i stop = some i := Bytes.find_self h.head (by omega)
  have hslash : isAt src 0x2F (i + 1) stop = .ok true := isAt_of_eq (by omega) h.tail.head
  rw [elementEndFrom_some hfound, countTag, bind_of_eq hslash]
  show (hasTagName src other.toArray (i + 2) stop >>= _) = _
  rw [bind_of_eq (hasTagName_eq hname (head?_blanks hblanks) h.tail.tail (by omega))]
  by_cases hother : name = other
  · rw [decide_eq_true hother, if_pos hother]
    show ((tagEnd src i stop).map _ >>= _) = _
    rw [bind_of_eq (hname.tagEnd_endTag hblanks h hle)]
    rfl
  · have hfree : 0x3C ∉ 0x2F :: (name ++ blanks) ++ [0x3E] := fun hin =>
      (List.mem_append.mp hin).elim (hname.endTag_attributes hblanks).no_tag (by decide)
    rw [decide_eq_false hother, if_neg hother]
    refine (elementEndFrom_of_free h.tail hfree).trans ?_
    rw [endTag, List.length_cons, Nat.add_right_comm, Nat.add_assoc]

/-! ## Elements -/

/-- **Markup is passed**, and leaves as many elements of a name open as there were. Elements of
a name that has no end tag are not looked for. -/
theorem Markup.passed (hmarkup : Markup one text) (hvoid : isVoid other = false)
    (h : src.Spells text i) (hle : i + text.length ≤ stop) (hdepth : 1 ≤ depth) :
    (elementEndFrom src other.toArray stop depth i).map (·.1)
      = (elementEndFrom src other.toArray stop depth (i + text.length)).map (·.1) := by
  induction hmarkup generalizing i depth with
  | @single name attributes hs hclosed =>
    rw [hs.elementEndFrom_eq h hle, if_neg]
    rw [Bool.and_eq_true, decide_eq_true_iff]
    rintro ⟨rfl, hopen⟩
    rw [(Bool.not_eq_true' _).mp hopen, hvoid] at hclosed
    cases hclosed
  | @pair name attributes inner blanks hs hopen hinner hblanks ih =>
    rw [List.length_append, List.length_append] at hle ⊢
    have hcloses : closesItself attributes = false := (Bool.or_eq_false_iff.mp hopen).1
    rw [hs.elementEndFrom_eq h.left (by omega), hcloses, Bool.not_false, Bool.and_true]
    by_cases hname : name = other
    · rw [decide_eq_true hname, if_pos rfl, ih h.right.left (by omega) (Nat.le_succ_of_le hdepth),
        elementEndFrom_endTag hs.isName hblanks h.right.right (by omega), if_pos hname,
        if_neg (by omega), Nat.succ_sub_one, Nat.add_assoc, Nat.add_assoc]
    · rw [decide_eq_false hname, if_neg Bool.false_ne_true, ih h.right.left (by omega) hdepth,
        elementEndFrom_endTag hs.isName hblanks h.right.right (by omega), if_neg hname,
        Nat.add_assoc, Nat.add_assoc]
  | nil => rfl
  | @text b rest hb _ ih =>
    rw [List.length_cons] at hle
    have hmark : src.Spells [b] i := Bytes.spells_cons.mpr ⟨h.head, Bytes.spells_nil⟩
    have hfree : 0x3C ∉ [b] := List.mem_singleton.not.mpr hb.symm
    rw [elementEndFrom_of_free hmark hfree, List.length_singleton, ih h.tail (by omega) hdepth,
      List.length_cons, Nat.add_right_comm, Nat.add_assoc]
  | @element e rest he hrest ihe ihrest =>
    rw [List.length_append] at hle ⊢
    rw [ihe h.left (by omega) hdepth, ihrest h.right (by omega) hdepth, Nat.add_assoc]

/-- What the end of an element is read off, once the parts of its start tag are known. -/
theorem elementEnd_startTag (hs : IsStart name attributes)
    (h : src.Spells (startTag name attributes) i)
    (hle : i + (startTag name attributes).length ≤ stop) :
    (elementEnd src i stop).map (·.1)
      = if closesItself attributes || isVoid name then
          .ok (i + (startTag name attributes).length)
        else (elementEndFrom src name.toArray stop 1
          (i + (startTag name attributes).length)).map (·.1) := by
  have hlen := @startTag_length name attributes
  have happ := @List.length_append _ name attributes
  obtain ⟨first, hfirst, hslash⟩ := hs.exists_first h
  obtain ⟨last, hlast, hcloses⟩ := hs.exists_last h
  obtain ⟨⟨tagStop, hstop⟩, htag, rfl⟩ := Answers.exists_of_map (hs.tagEnd h hle)
  have hmore :
      ¬ (first == 0x2F || decide (i + (startTag name attributes).length ≤ i + 1)) = true := by
    rw [Bool.or_eq_true, beq_iff_eq, decide_eq_true_iff]
    exact not_or.mpr ⟨hslash, by omega⟩
  have hmark : byteBefore src (i + (startTag name attributes).length) 1 = .ok 0x3E := by
    rw [byteBefore, if_pos (by omega), ← byteAt_of_eq h.tail.right.head]
    congr 1
    omega
  have hslice : src.slice (i + 1) (i + 1 + name.length) = name.toArray :=
    h.tail.left.left.slice_eq
  rw [elementEnd, bind_of_eq htag]
  show (byteAt src (i + 1) >>= _).map _ = _
  rw [bind_of_eq (byteAt_of_eq hfirst), if_neg hmore]
  show (byteBefore src (i + (startTag name attributes).length) 1 >>= _).map _ = _
  rw [bind_of_eq hmark, if_neg (by decide)]
  show (tagNameEnd src (i + 1) stop >>= _).map _ = _
  rw [bind_of_eq (tagNameEnd_eq hs.isName hs.apart h.tail (by omega))]
  show (byteBefore src (i + (startTag name attributes).length) 2 >>= _).map _ = _
  rw [bind_of_eq hlast, hcloses, hslice]
  show (if closesItself attributes || isVoid name then _ else _ : Scan _).map _ = _
  split
  · rfl
  · exact map_bind_of_eq fun _ => rfl

/-- **An element is passed whole.** -/
theorem IsElement.skip {e : List UInt8} (he : IsElement e) (h : src.Spells e i)
    (hle : i + e.length ≤ stop) : ∃ hn, elementEnd src i stop = .ok ⟨i + e.length, hn⟩ := by
  have hend : (elementEnd src i stop).map (·.1) = .ok (i + e.length) := by
    cases he with
    | @single name attributes hs hclosed =>
      rw [elementEnd_startTag hs h hle, if_pos hclosed]
    | @pair name attributes inner blanks hs hopen hinner hblanks =>
      have hvoid : isVoid name = false := (Bool.or_eq_false_iff.mp hopen).2
      rw [List.length_append, List.length_append] at hle ⊢
      rw [elementEnd_startTag hs h.left (by omega), hopen, if_neg Bool.false_ne_true,
        hinner.passed hvoid h.right.left (by omega) (Nat.le_refl 1),
        elementEndFrom_endTag hs.isName hblanks h.right.right (by omega), if_pos rfl,
        if_pos (Nat.le_refl 1)]
      exact congrArg Except.ok (by omega)
  obtain ⟨⟨n, hn⟩, hend, rfl⟩ := Answers.exists_of_map hend
  exact ⟨hn, hend⟩

/-- **An element ends at its own end tag**, wherever it stands and whatever stands behind it. -/
theorem elementEnd_element {e : List UInt8} {lt : Nat} (he : IsElement e)
    (h : src.Spells e lt) (hle : lt + e.length ≤ stop) :
    (elementEnd src lt stop).map (·.1) = .ok (lt + e.length) := by
  obtain ⟨hn, hend⟩ := he.skip h hle
  rw [hend]
  rfl

/-- The bytes of `<b a='>'><b/><b>x</b></b>`. -/
def nestedElement : List UInt8 :=
  startTag [0x62] [0x20, 0x61, 0x3D, 0x27, 0x3E, 0x27]
    ++ (startTag [0x62] [0x2F] ++ (startTag [0x62] [] ++ ([0x78] ++ endTag [0x62] []) ++ [])
      ++ endTag [0x62] [])

/-- Elements of the same name inside, a mark in a value, and one more end tag behind. -/
theorem elementEnd_element_nested :
    IsElement nestedElement
      ∧ Bytes.Spells (nestedElement ++ endTag [0x62] []).toArray nestedElement 0
      ∧ 0 + nestedElement.length ≤ 29
      ∧ (elementEnd (nestedElement ++ endTag [0x62] []).toArray 0 29).map (·.1) = .ok 25 := by
  have hname : IsTagName [0x62] := ⟨by decide, List.forall_mem_singleton.mpr (by decide)⟩
  have hquoted : Attributes [0x20, 0x61, 0x3D, 0x27, 0x3E, 0x27] :=
    .byte (by decide) <| .byte (by decide) <| .byte (by decide) <|
      @Attributes.value 0x27 [0x3E] [] (by decide) (by decide) (by decide) .nil
  have hslash : Attributes [0x2F] := .byte (by decide) .nil
  have hsingle : IsElement (startTag [0x62] [0x2F]) :=
    .single ⟨hname, by decide, hslash⟩ (by decide +kernel)
  have hinner : IsElement (startTag [0x62] [] ++ ([0x78] ++ endTag [0x62] [])) :=
    .pair ⟨hname, by decide, .nil⟩ (by decide +kernel) (.text (by decide) .nil)
      (List.forall_mem_nil _)
  have he : IsElement nestedElement :=
    .pair ⟨hname, by decide, hquoted⟩ (by decide +kernel)
      (.element hsingle (.element hinner .nil)) (List.forall_mem_nil _)
  have hspells : Bytes.Spells (nestedElement ++ endTag [0x62] []).toArray nestedElement 0 := by
    decide +kernel
  exact ⟨he, hspells, by decide +kernel, elementEnd_element he hspells (by decide +kernel)⟩

end SyntaxForest.Template.Lexical
