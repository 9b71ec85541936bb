import SyntaxForest.Proofs.Template.Shortening
import SyntaxForest.Proofs.Template.Spelling

/-!
# Literals and comments

The parts of code that are read as one, whatever they hold: string literals, verbatim strings
and comments. Each kind is a predicate on texts that says how such a text is built, and beside
it stands what the rule for the kind answers where such a text stands: the position just past
it. A verbatim string has to be followed by something other than a quote, which would be
doubled by its last one.
-/

namespace SyntaxForest.Template.Lexical

variable {src : Bytes} {s text : List UInt8} {b : UInt8} {i stop : Nat}

/-! ## String literals -/

/-- What stands between the quotes of a string literal: no line ends in it, and a quote or a
backslash is escaped. -/
inductive StringBody : List UInt8 → Prop
  | nil : StringBody []
  | byte {b : UInt8} {rest : List UInt8} : b ≠ 0x22 → b ≠ 0x5C → b ≠ 0x0A → StringBody rest →
      StringBody (b :: rest)
  | escape {b : UInt8} {rest : List UInt8} : StringBody rest → StringBody (0x5C :: b :: rest)

/-- **A string literal.** -/
inductive IsString : List UInt8 → Prop
  | quoted {body : List UInt8} : StringBody body → IsString (0x22 :: (body ++ [0x22]))

/-- **A string is closed by the quote behind its body.** -/
theorem StringBody.close (hbody : StringBody text) (h : src.Spells (text ++ [0x22]) i)
    (hlt : i + text.length < stop) :
    stringClose? src i stop = .ok (some ⟨i + text.length, Nat.le_add_right _ _⟩) := by
  induction hbody generalizing i with
  | nil =>
    rw [stringClose?, if_pos (by omega), bind_of_eq (byteAt_of_eq h.head)]
    rfl
  | @byte b rest hquote hslash hline _ ih =>
    rw [List.length_cons] at hlt
    have hlen : i + 1 + rest.length = i + (rest.length + 1) := by omega
    have hrest := ih h.tail (by omega)
    rw [stringClose?, if_pos (by omega), bind_of_eq (byteAt_of_eq h.head),
      if_neg (mt beq_iff_eq.mp hquote), if_neg (mt beq_iff_eq.mp hline),
      if_neg (mt beq_iff_eq.mp hslash), hrest]
    exact congrArg (fun n => Except.ok (some n)) (Subtype.ext hlen)
  | @escape b rest _ ih =>
    rw [List.length_cons, List.length_cons] at hlt
    have hlen : i + 2 + rest.length = i + (rest.length + 1 + 1) := by omega
    have hrest := ih h.tail.tail (by omega)
    rw [stringClose?, if_pos (by omega), bind_of_eq (byteAt_of_eq h.head)]
    show Option.map _ <$> stringClose? src (i + 2) stop = _
    rw [hrest]
    exact congrArg (fun n => Except.ok (some n)) (Subtype.ext hlen)

/-- **A string literal is passed whole.** -/
theorem IsString.skip (hs : IsString s) (h : src.Spells s i) (hle : i + s.length ≤ stop) :
    ∃ hn, skipString src i stop = .ok ⟨i + s.length, hn⟩ := by
  cases hs with
  | @quoted body hbody =>
    rw [List.length_cons, List.length_append, List.length_singleton] at hle
    have hlen : i + 1 + body.length + 1 = i + (0x22 :: (body ++ [0x22])).length := by
      rw [List.length_cons, List.length_append, List.length_singleton]
      omega
    refine ⟨by omega, ?_⟩
    rw [skipString, bind_of_eq (hbody.close h.tail (by omega))]
    exact congrArg Except.ok (Subtype.ext hlen)

/-! ## Verbatim strings -/

/-- What stands between the quotes of a verbatim string: a quote is doubled. -/
inductive VerbatimBody : List UInt8 → Prop
  | nil : VerbatimBody []
  | byte {b : UInt8} {rest : List UInt8} : b ≠ 0x22 → VerbatimBody rest →
      VerbatimBody (b :: rest)
  | doubled {rest : List UInt8} : VerbatimBody rest → VerbatimBody (0x22 :: 0x22 :: rest)

/-- **A verbatim string**, with its `@`. -/
inductive IsVerbatim : List UInt8 → Prop
  | quoted {body : List UInt8} : VerbatimBody body → IsVerbatim (0x40 :: 0x22 :: (body ++ [0x22]))

/-- **A verbatim string is closed by the quote behind its body**, if no other quote follows. -/
theorem VerbatimBody.close (hbody : VerbatimBody text) (h : src.Spells (text ++ [0x22]) i)
    (hlt : i + text.length < stop)
    (hnext : isAt src 0x22 (i + text.length + 1) stop = .ok false) :
    verbatimClose? src i stop = .ok (some ⟨i + text.length, Nat.le_add_right _ _⟩) := by
  induction hbody generalizing i with
  | nil =>
    rw [verbatimClose?, if_pos (by omega), bind_of_eq (byteAt_of_eq h.head)]
    exact bind_of_eq hnext _
  | @byte b rest hquote _ ih =>
    rw [List.length_cons] at hlt hnext
    have hlen : i + 1 + rest.length = i + (rest.length + 1) := by omega
    have hrest := ih h.tail (by omega) (by rw [hlen, hnext])
    rw [verbatimClose?, if_pos (by omega), bind_of_eq (byteAt_of_eq h.head),
      if_neg (mt beq_iff_eq.mp hquote), hrest]
    exact congrArg (fun n => Except.ok (some n)) (Subtype.ext hlen)
  | @doubled rest _ ih =>
    rw [List.length_cons, List.length_cons] at hlt hnext
    have hlen : i + 2 + rest.length = i + (rest.length + 1 + 1) := by omega
    have hrest := ih h.tail.tail (by omega) (by rw [hlen, hnext])
    rw [verbatimClose?, if_pos (by omega), bind_of_eq (byteAt_of_eq h.head)]
    show (isAt src 0x22 (i + 1) stop >>= _) = _
    rw [bind_of_eq (isAt_of_eq (by omega) h.tail.head)]
    show Option.map _ <$> verbatimClose? src (i + 2) stop = _
    rw [hrest]
    exact congrArg (fun n => Except.ok (some n)) (Subtype.ext hlen)

/-- **A verbatim string is passed whole**, if no quote follows it. -/
theorem IsVerbatim.skip (hs : IsVerbatim s) (h : src.Spells s i) (hle : i + s.length ≤ stop)
    (hnext : isAt src 0x22 (i + s.length) stop = .ok false) :
    ∃ hn, skipVerbatim src i stop = .ok ⟨i + s.length, hn⟩ := by
  cases hs with
  | @quoted body hbody =>
    have hlen : i + 2 + body.length + 1 = i + (0x40 :: 0x22 :: (body ++ [0x22])).length := by
      rw [List.length_cons, List.length_cons, List.length_append, List.length_singleton]
      omega
    rw [← hlen] at hle hnext
    refine ⟨by omega, ?_⟩
    rw [skipVerbatim, bind_of_eq (hbody.close h.tail.tail (by omega) hnext)]
    exact congrArg Except.ok (Subtype.ext hlen)

/-! ## Comments -/

/-- **A comment of the code**: the rest of a line with its newline, or up to the first mark that
ends it. -/
inductive IsComment : List UInt8 → Prop
  | line {text : List UInt8} : 0x0A ∉ text → IsComment (0x2F :: 0x2F :: (text ++ [0x0A]))
  | block {text : List UInt8} : ¬ [0x2A, 0x2F] <:+: text →
      IsComment (0x2F :: 0x2A :: (text ++ [0x2A, 0x2F]))

/-- **A comment of the template**, up to the first mark that ends it. -/
inductive IsTemplateComment : List UInt8 → Prop
  | marked {text : List UInt8} : ¬ [0x2A, 0x40] <:+: text →
      IsTemplateComment (0x40 :: 0x2A :: (text ++ [0x2A, 0x40]))

variable {low : Nat} {hs : low ≤ stop}

/-- **A comment to the end of its line** is passed with the newline. -/
theorem pastOrStop_line {hi : low ≤ i + 1} (hfree : 0x0A ∉ text)
    (h : src.Spells (0x2F :: 0x2F :: (text ++ [0x0A])) i)
    (hle : i + (0x2F :: 0x2F :: (text ++ [0x0A])).length ≤ stop) :
    (pastOrStop src [0x0A] (i + 1) stop hi hs).1
      = i + (0x2F :: 0x2F :: (text ++ [0x0A])).length := by
  have hline : src.Spells (0x2F :: text ++ [0x0A]) (i + 1) := h.tail
  have hfree' : 0x0A ∉ 0x2F :: text := List.not_mem_cons_of_ne_of_not_mem (by decide) hfree
  simp only [List.length_cons, List.length_append, List.length_nil] at hle ⊢
  have hlt : i + 1 + (0x2F :: text).length < stop := by
    rw [List.length_cons]
    omega
  rw [pastOrStop_val, hline.find_byte hfree' hlt]
  show i + 1 + (text.length + 1) + 1 = _
  omega

/-- **A comment between marks** is passed with the mark that ends it. -/
theorem pastOrStop_block {hi : low ≤ i + 2} (hfree : ¬ [0x2A, 0x2F] <:+: text)
    (h : src.Spells (0x2F :: 0x2A :: (text ++ [0x2A, 0x2F])) i)
    (hle : i + (0x2F :: 0x2A :: (text ++ [0x2A, 0x2F])).length ≤ stop) :
    (pastOrStop src [0x2A, 0x2F] (i + 2) stop hi hs).1
      = i + (0x2F :: 0x2A :: (text ++ [0x2A, 0x2F])).length := by
  simp only [List.length_cons, List.length_append, List.length_nil] at hle ⊢
  have hlt : i + 2 + text.length + 1 < stop := by omega
  rw [pastOrStop_val, h.tail.tail.find_pair (by decide) hfree hlt]
  show i + 2 + text.length + 2 = _
  omega

/-! ## Bytes between them -/

/-- **Two bytes that open a literal or a comment together**, though neither does alone. -/
def OpenTogether (b next : UInt8) : Prop :=
  b = 0x40 ∧ (next = 0x22 ∨ next = 0x2A) ∨ b = 0x2F ∧ (next = 0x2F ∨ next = 0x2A)

instance (b next : UInt8) : Decidable (OpenTogether b next) :=
  inferInstanceAs (Decidable (_ ∨ _))

/-- Two bytes of which the second is not what the first one looks for. -/
theorem not_beq_and_beq {b c next d : UInt8} (h : b = c → next ≠ d) :
    ¬ (b == c && next == d) = true := fun heq =>
  h (beq_iff_eq.mp (Bool.and_eq_true_iff.mp heq).1) (beq_iff_eq.mp (Bool.and_eq_true_iff.mp heq).2)

end SyntaxForest.Template.Lexical
