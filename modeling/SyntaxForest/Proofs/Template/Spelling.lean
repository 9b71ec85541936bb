import Mathlib.Data.List.Infix
import SyntaxForest.Template.Lexical

/-!
# A text that stands in a source

What a rule of the scanner makes of well-formed text does not depend on where the text stands,
or on what follows it. `Bytes.Spells` says that a text stands at an offset, and comes apart
as the text does (`spells_append`, `spells_cons`); so a statement about text of one kind is
proved along the text, wherever it stands. The searches of the scanner are told for such
texts here: what is looked for and does not occur before is found (`Spells.find_byte`,
`Spells.find_pair`), and what is all of a class is skipped (`Lexical.skipWhile_spells`).
-/

namespace SyntaxForest.Bytes

variable {src : Bytes} {text rest : List UInt8} {b c : UInt8} {i stop : Nat}

/-- **A text stands at an offset.** -/
def Spells (src : Bytes) (text : List UInt8) (i : Nat) : Prop := src.hasAt text i = true

instance (src : Bytes) (text : List UInt8) (i : Nat) : Decidable (src.Spells text i) :=
  inferInstanceAs (Decidable (_ = true))

@[simp] theorem spells_nil : src.Spells [] i := rfl

@[simp] theorem spells_cons :
    src.Spells (b :: text) i ↔ src[i]? = some b ∧ src.Spells text (i + 1) := by
  rw [Spells, hasAt, Bool.and_eq_true, beq_iff_eq, Spells]

@[simp] theorem spells_append :
    src.Spells (text ++ rest) i ↔ src.Spells text i ∧ src.Spells rest (i + text.length) := by
  induction text generalizing i with
  | nil => exact (and_iff_right spells_nil).symm
  | cons b text ih =>
    rw [List.cons_append, spells_cons, spells_cons, ih, and_assoc, List.length_cons,
      show i + 1 + text.length = i + (text.length + 1) by omega]

/-- What is looked for may stand right where the search begins. -/
theorem find_self (h : src[i]? = some b) (hlt : i < stop) : src.find [b] i stop = some i :=
  find_eq_some_iff.mpr ⟨⟨Nat.le_refl _, Nat.le_min.mpr ⟨hlt, (Array.getElem?_eq_some_iff.mp h).1⟩,
    hasAt_singleton.mpr h⟩, fun _ hj hlt => absurd hlt (Nat.not_lt.mpr hj)⟩

/-- A search passes a byte that is not looked for. -/
theorem find_succ (h : src[i]? ≠ some b) : src.find [b] i stop = src.find [b] (i + 1) stop := by
  refine Option.ext fun n => ?_
  rw [find_eq_some_iff, find_eq_some_iff]
  refine ⟨fun hn => ⟨⟨?_, hn.1.2⟩, fun j hj => hn.2 j (Nat.le_of_succ_le hj)⟩,
    fun hn => ⟨⟨Nat.le_of_succ_le hn.1.1, hn.1.2⟩, fun j hj hlt => ?_⟩⟩
  · refine Nat.lt_of_le_of_ne hn.1.1 ?_
    rintro rfl
    exact h (hasAt_singleton.mp hn.1.2.2)
  · rcases Nat.eq_or_lt_of_le hj with rfl | hj
    · exact fun hat => h (hasAt_singleton.mp hat)
    · exact hn.2 j hj hlt

namespace Spells

theorem head (h : src.Spells (b :: text) i) : src[i]? = some b := (spells_cons.mp h).1

theorem tail (h : src.Spells (b :: text) i) : src.Spells text (i + 1) := (spells_cons.mp h).2

theorem left (h : src.Spells (text ++ rest) i) : src.Spells text i := (spells_append.mp h).1

theorem right (h : src.Spells (text ++ rest) i) : src.Spells rest (i + text.length) :=
  (spells_append.mp h).2

/-- A text up to one of its bytes. -/
theorem upTo (h : src.Spells (text ++ b :: rest) i) : src.Spells (text ++ [b]) i :=
  spells_append.mpr ⟨h.left, spells_cons.mpr ⟨h.right.head, spells_nil⟩⟩

/-- The bytes of the text are those of the source. -/
theorem getElem? (h : src.Spells text i) {j : Nat} (hj : j < text.length) :
    src[i + j]? = text[j]? := by
  induction text generalizing i j with
  | nil => exact absurd hj (Nat.not_lt_zero _)
  | cons b text ih =>
    cases j with
    | zero => exact h.head
    | succ j =>
      have := ih h.tail (Nat.lt_of_succ_lt_succ hj)
      rwa [show i + 1 + j = i + (j + 1) by omega] at this

/-- What stands at the offset is the first byte of the text, or the one behind it. -/
theorem first (h : src.Spells (text ++ [b]) i) : src[i]? = some (text.headD b) := by
  cases text with
  | nil => exact h.head
  | cons c text => exact h.head

/-- A text that stands in a source ends there. -/
theorem lt_size (h : src.Spells text i) {j : Nat} (hj : j < text.length) : i + j < src.size :=
  (Array.getElem?_eq_some_iff.mp ((h.getElem? hj).trans (List.getElem?_eq_getElem hj))).1

/-- A text is the slice of the source where it stands. -/
theorem slice_eq (h : src.Spells text i) : src.slice i (i + text.length) = text.toArray := by
  refine Array.ext_getElem? fun j => ?_
  rw [slice, Array.getElem?_extract]
  rcases Nat.lt_or_ge j text.length with hlt | hge
  · have := h.lt_size (j := text.length - 1) (by omega)
    rw [if_pos (by omega), h.getElem? hlt, List.getElem?_toArray]
  · rw [if_neg (by omega), List.getElem?_toArray, List.getElem?_eq_none hge]

/-! ## Searches -/

/-- **A byte that does not occur before** is found. -/
theorem find_byte (h : src.Spells (text ++ [b]) i) (hfree : b ∉ text)
    (hlt : i + text.length < stop) : src.find [b] i stop = some (i + text.length) := by
  have hend := (Array.getElem?_eq_some_iff.mp h.right.head).1
  refine find_eq_some_iff.mpr ⟨⟨Nat.le_add_right _ _, Nat.le_min.mpr ⟨hlt, hend⟩,
    hasAt_singleton.mpr h.right.head⟩, fun j hj hlt hat => hfree ?_⟩
  obtain ⟨n, rfl⟩ := Nat.exists_eq_add_of_le hj
  have hn : n < text.length := by omega
  rw [hasAt_singleton, h.left.getElem? hn] at hat
  exact List.mem_of_getElem? hat

/-- **Two bytes that do not occur together before** are found together. -/
theorem find_pair (h : src.Spells (text ++ [b, c]) i) (hne : b ≠ c)
    (hfree : ¬ [b, c] <:+: text) (hlt : i + text.length + 1 < stop) :
    src.find [b, c] i stop = some (i + text.length) := by
  have hend := (Array.getElem?_eq_some_iff.mp h.right.tail.head).1
  refine find_eq_some_iff.mpr ⟨⟨Nat.le_add_right _ _, Nat.le_min.mpr ⟨hlt, hend⟩, h.right⟩,
    fun j hj hlt hat => ?_⟩
  obtain ⟨n, rfl⟩ := Nat.exists_eq_add_of_le hj
  have hn : n < text.length := by omega
  obtain ⟨hb, hc⟩ := spells_cons.mp hat
  rw [h.left.getElem? hn] at hb
  rcases Nat.lt_or_ge (n + 1) text.length with hin | hlast
  · -- both bytes are of the text
    refine hfree (List.infix_iff_getElem?.mpr ⟨n, ?_, fun k hk => ?_⟩)
    · rw [List.length_cons, List.length_singleton]
      omega
    · have hc' := hc.head
      rw [show i + n + 1 = i + (n + 1) by omega, h.left.getElem? hin] at hc'
      match k, hk with
      | 0, _ => rw [Nat.zero_add, hb]; rfl
      | 1, _ => rw [Nat.add_comm, hc']; rfl
  · -- the second one is the first byte of what is looked for
    have hc' := hc.head
    rw [show i + n + 1 = i + text.length by omega, h.right.head] at hc'
    exact hne (Option.some.inj hc')

end Spells

end SyntaxForest.Bytes

namespace SyntaxForest.Template.Lexical

variable {src : Bytes} {text : List UInt8} {b : UInt8} {i stop : Nat}

/-- An answer that is only told in another form. -/
theorem map_bind_of_eq {ε α β γ : Type} {x : Except ε α} {f : α → Except ε β} {g : β → γ}
    {h : α → γ} (hf : ∀ a, (f a).map g = .ok (h a)) : (x >>= f).map g = x.map h := by
  cases x with
  | error e => rfl
  | ok a => exact hf a

theorem byteAt_of_eq (h : src[i]? = some b) : byteAt src i = .ok b := by
  rw [byteAt, h]

theorem byteAfter_of_eq (h : src[i + 1]? = some b) (hlt : i + 1 < stop) :
    byteAfter src i stop = .ok b := by
  rw [byteAfter, if_pos hlt, byteAt_of_eq h]

/-- The byte behind is read, if the source goes on where the range does. -/
theorem exists_byteAfter (h : i + 1 < stop → i + 1 < src.size) :
    ∃ b, byteAfter src i stop = .ok b := by
  rw [byteAfter]
  split
  · next hin => exact ⟨_, byteAt_of_eq (Array.getElem?_eq_getElem (h hin))⟩
  · exact ⟨0, rfl⟩

/-- Where a text has room, its first byte has. -/
theorem lt_of_length_cons (h : i + (b :: text).length ≤ stop) : i < stop :=
  Nat.lt_of_lt_of_le (Nat.lt_add_of_pos_right (Nat.succ_pos _)) h

/-- A text of two bytes or more shows the byte behind the first. -/
theorem byteAfter_spells (h : src.Spells text i) (hlen : 1 < text.length)
    (hle : i + text.length ≤ stop) : byteAfter src i stop = .ok text[1] :=
  byteAfter_of_eq (by rw [h.getElem? hlen, List.getElem?_eq_getElem hlen]) (by omega)

/-- What is looked for and found is where the search ends. -/
theorem upTo_of_find {needle : List UInt8} {low n : Nat} {hi : low ≤ i} {hs : low ≤ stop}
    (h : src.find needle i stop = some n) : (upTo src needle i stop hi hs).1 = n := by
  unfold upTo
  split
  · next found hfound => exact Option.some.inj (hfound.symm.trans h)
  · next hnone => exact absurd (hnone.symm.trans h) (Option.some_ne_none _).symm

/-- **What is all of a class is skipped**, up to a byte that is not of it. -/
theorem skipWhile_spells {p : UInt8 → Bool} (h : src.Spells (text ++ [b]) i)
    (hall : ∀ c ∈ text, p c = true) (hb : p b = false) (hle : i + text.length ≤ stop) :
    skipWhile p src i stop = .ok ⟨i + text.length, Nat.le_add_right _ _⟩ := by
  induction text generalizing i with
  | nil =>
    rw [skipWhile]
    split
    · rw [byteAt_of_eq h.head]
      exact if_neg (ne_true_of_eq_false hb)
    · rfl
  | cons c text ih =>
    rw [List.length_cons] at hle
    have hrest := ih h.tail (fun c hc => hall c (List.mem_cons_of_mem _ hc)) (by omega)
    rw [skipWhile, if_pos (by omega), byteAt_of_eq h.head]
    show (if p c = true then _ else _) = _
    rw [if_pos (hall c (List.mem_cons_self ..)), hrest]
    refine congrArg Except.ok (Subtype.ext ?_)
    show i + 1 + text.length = i + (text.length + 1)
    omega

end SyntaxForest.Template.Lexical
