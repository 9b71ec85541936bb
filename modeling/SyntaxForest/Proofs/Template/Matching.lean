import SyntaxForest.Proofs.Template.Lexemes

/-!
# Well-formed code between brackets

The scanner finds the end of a block by counting the brackets of one kind. What it counts are
the brackets that are code: those in literals and comments are passed with them. For code that
is well formed as far as brackets of the kind go (`Bracket.Content`), the bracket that it
finds is the one that closes the code (`closing_content`), whatever the literals and comments
hold and whatever follows.

The content is told together with the byte behind it, because three rules look one byte ahead:
an `@` or a slash may open something with it, and a quote may double the one before it.
-/

namespace SyntaxForest.Template.Lexical

variable {src : Bytes} {k : Bracket} {text : List UInt8} {b next : UInt8}
variable {i stop depth opening : Nat}

/-- **What may stand between two brackets of a kind**, before the byte `next`: literals and
comments, pairs of the same brackets with such content, and bytes that open none of these. -/
inductive Bracket.Content (k : Bracket) : List UInt8 → UInt8 → Prop
  | nil {next : UInt8} : k.Content [] next
  | string {s rest : List UInt8} {next : UInt8} : IsString s → k.Content rest next →
      k.Content (s ++ rest) next
  | verbatim {s rest : List UInt8} {next : UInt8} : IsVerbatim s → rest.headD next ≠ 0x22 →
      k.Content rest next → k.Content (s ++ rest) next
  | comment {s rest : List UInt8} {next : UInt8} : IsComment s → k.Content rest next →
      k.Content (s ++ rest) next
  | templateComment {s rest : List UInt8} {next : UInt8} : IsTemplateComment s →
      k.Content rest next → k.Content (s ++ rest) next
  | group {inner rest : List UInt8} {next : UInt8} : k.Content inner k.closer →
      k.Content rest next → k.Content (k.opener :: (inner ++ k.closer :: rest)) next
  | byte {b next : UInt8} {rest : List UInt8} : b ∉ [0x22, 0x27, k.opener, k.closer] →
      ¬ OpenTogether b (rest.headD next) → k.Content rest next → k.Content (b :: rest) next

/-! ## One step -/

/-- **One step of the search** leads from `i`, with `depth` brackets open, to `j`, with
`depth'`. -/
def StepsTo (src : Bytes) (k : Bracket) (stop i depth j depth' : Nat) : Prop :=
  ∃ (hlt : i < stop) (n : AtLeast (i + 1)),
    n.1 = j ∧ bracketStep src k stop depth i hlt = .ok (some (n, depth'))

/-- A string is passed in one step. -/
theorem stepsTo_string (hs : IsString text) (h : src.Spells text i)
    (hle : i + text.length ≤ stop) : StepsTo src k stop i depth (i + text.length) depth := by
  obtain ⟨hn, hskip⟩ := hs.skip h hle
  refine ⟨by omega, ⟨_, hn⟩, rfl, ?_⟩
  cases hs with
  | @quoted body hbody =>
    have hfollowing := byteAfter_spells h (by simp) hle
    rw [bracketStep, bind_of_eq (byteAt_of_eq h.head), bind_of_eq hfollowing]
    exact bind_of_eq hskip _

/-- A verbatim string is passed in one step, if no quote follows it. -/
theorem stepsTo_verbatim (hs : IsVerbatim text) (h : src.Spells text i)
    (hle : i + text.length ≤ stop) (hnext : isAt src 0x22 (i + text.length) stop = .ok false) :
    StepsTo src k stop i depth (i + text.length) depth := by
  obtain ⟨hn, hskip⟩ := hs.skip h hle hnext
  refine ⟨by omega, ⟨_, hn⟩, rfl, ?_⟩
  cases hs with
  | @quoted body hbody =>
    have hfollowing := byteAfter_spells h (by simp) hle
    rw [bracketStep, bind_of_eq (byteAt_of_eq h.head), bind_of_eq hfollowing]
    exact bind_of_eq hskip _

/-- A comment is passed in one step. -/
theorem stepsTo_comment (hs : IsComment text) (h : src.Spells text i)
    (hle : i + text.length ≤ stop) : StepsTo src k stop i depth (i + text.length) depth := by
  cases hs with
  | @line text hfree =>
    have hfollowing := byteAfter_spells h (by simp) hle
    have hlt : i < stop := lt_of_length_cons hle
    refine ⟨hlt, pastOrStop src [0x0A] (i + 1) stop (Nat.le_refl _) hlt,
      pastOrStop_line hfree h hle, ?_⟩
    rw [bracketStep, bind_of_eq (byteAt_of_eq h.head), bind_of_eq hfollowing]
    rfl
  | @block text hfree =>
    have hfollowing := byteAfter_spells h (by simp) hle
    have hlt : i < stop := lt_of_length_cons hle
    refine ⟨hlt, pastOrStop src [0x2A, 0x2F] (i + 2) stop (by omega) hlt,
      pastOrStop_block hfree h hle, ?_⟩
    rw [bracketStep, bind_of_eq (byteAt_of_eq h.head), bind_of_eq hfollowing]
    rfl

/-- A comment of the template is passed in one step. -/
theorem stepsTo_templateComment (hs : IsTemplateComment text) (h : src.Spells text i)
    (hle : i + text.length ≤ stop) : StepsTo src k stop i depth (i + text.length) depth := by
  cases hs with
  | @marked text hfree =>
    have hfollowing : byteAfter src i stop = .ok 0x2A := byteAfter_spells h (by simp) hle
    have hlen : i + 2 + text.length + 2 = i + (0x40 :: 0x2A :: (text ++ [0x2A, 0x40])).length := by
      simp only [List.length_cons, List.length_append, List.length_nil]
      omega
    have hfind : src.find [0x2A, 0x40] (i + 2) stop = some (i + 2 + text.length) :=
      h.tail.tail.find_pair (by decide) hfree (by omega)
    refine ⟨by omega, ⟨i + 2 + text.length + 2, by omega⟩, hlen, ?_⟩
    rw [bracketStep, bind_of_eq (byteAt_of_eq h.head), bind_of_eq hfollowing, if_neg (by decide),
      if_neg (by decide), if_neg (by decide), if_pos (by decide)]
    split
    · next close hclose =>
      obtain rfl := Option.some.inj (hfind.symm.trans hclose)
      rfl
    · next hnone => exact absurd (hfind.symm.trans hnone) (Option.some_ne_none _)

/-- An opening bracket goes one level down. -/
theorem stepsTo_opener (hat : src[i]? = some k.opener) (hnext : src[i + 1]? = some next)
    (hlt : i + 1 < stop) : StepsTo src k stop i depth (i + 1) (depth + 1) := by
  refine ⟨by omega, .here (i + 1), rfl, ?_⟩
  rw [bracketStep, bind_of_eq (byteAt_of_eq hat), bind_of_eq (byteAfter_of_eq hnext hlt)]
  cases k <;> rfl

/-- A closing bracket that leaves others open. -/
theorem stepsTo_closer (hat : src[i]? = some k.closer) (hnext : src[i + 1]? = some next)
    (hlt : i + 1 < stop) (hdepth : 1 ≤ depth) :
    StepsTo src k stop i (depth + 1) (i + 1) depth := by
  have hopen : ¬ depth + 1 ≤ 1 := by omega
  refine ⟨by omega, .here (i + 1), rfl, ?_⟩
  rw [bracketStep, bind_of_eq (byteAt_of_eq hat), bind_of_eq (byteAfter_of_eq hnext hlt)]
  cases k <;> exact if_neg hopen

/-- Any other byte is passed by itself. -/
theorem stepsTo_byte (hat : src[i]? = some b) (hnext : src[i + 1]? = some next)
    (hlt : i + 1 < stop) (hb : b ∉ [0x22, 0x27, k.opener, k.closer])
    (hopen : ¬ OpenTogether b next) : StepsTo src k stop i depth (i + 1) depth := by
  refine ⟨by omega, .here (i + 1), rfl, ?_⟩
  simp only [List.mem_cons, List.not_mem_nil, or_false, not_or] at hb
  simp only [OpenTogether, not_or, not_and] at hopen
  rw [bracketStep, bind_of_eq (byteAt_of_eq hat), bind_of_eq (byteAfter_of_eq hnext hlt),
    if_neg (mt beq_iff_eq.mp hb.1), if_neg (mt beq_iff_eq.mp hb.2.1),
    if_neg (not_beq_and_beq fun h => (hopen.1 h).1),
    if_neg (not_beq_and_beq fun h => (hopen.1 h).2),
    if_neg (not_beq_and_beq fun h => (hopen.2 h).1),
    if_neg (not_beq_and_beq fun h => (hopen.2 h).2),
    if_neg (mt beq_iff_eq.mp hb.2.2.1), if_neg (mt beq_iff_eq.mp hb.2.2.2)]
  rfl

/-! ## The search -/

/-- **The search goes on where a step leads.** -/
theorem StepsTo.closingFrom_eq {j depth' : Nat} (h : StepsTo src k stop i depth j depth') :
    (closingFrom src k opening stop depth i).map (·.1)
      = (closingFrom src k opening stop depth' j).map (·.1) := by
  obtain ⟨hlt, ⟨n, hn⟩, rfl, hstep⟩ := h
  rw [closingFrom, dif_pos hlt, bind_of_eq hstep]
  refine map_bind_of_eq ?_
  rintro ⟨m, h₁, h₂⟩
  rfl

/-- A part that is passed in one step, and then what follows it. -/
theorem closingFrom_append {s t : List UInt8} (h : src.Spells (s ++ t ++ [next]) i)
    (hlt : i + (s ++ t).length < stop)
    (hstep : src.Spells s i → src[i + s.length]? = some (t.headD next) →
      i + s.length < stop → StepsTo src k stop i depth (i + s.length) depth)
    (hrest : src.Spells (t ++ [next]) (i + s.length) → i + s.length + t.length < stop →
      (closingFrom src k opening stop depth (i + s.length)).map (·.1)
        = (closingFrom src k opening stop depth (i + s.length + t.length)).map (·.1)) :
    (closingFrom src k opening stop depth i).map (·.1)
      = (closingFrom src k opening stop depth (i + (s ++ t).length)).map (·.1) := by
  rw [List.append_assoc] at h
  rw [List.length_append, ← Nat.add_assoc] at hlt ⊢
  rw [(hstep h.left h.right.first (by omega)).closingFrom_eq, hrest h.right hlt]

/-- **Content is passed**, and leaves as many brackets open as there were. -/
theorem Bracket.Content.passed (hcontent : k.Content text next)
    (h : src.Spells (text ++ [next]) i) (hlt : i + text.length < stop) (hdepth : 1 ≤ depth) :
    (closingFrom src k opening stop depth i).map (·.1)
      = (closingFrom src k opening stop depth (i + text.length)).map (·.1) := by
  induction hcontent generalizing i depth with
  | nil => rfl
  | string hs _ ih =>
    exact closingFrom_append h hlt (fun hat _ hlt => stepsTo_string hs hat (Nat.le_of_lt hlt))
      fun hat hlt => ih hat hlt hdepth
  | verbatim hs hquote _ ih =>
    exact closingFrom_append h hlt
      (fun hat hnext hlt => stepsTo_verbatim hs hat (Nat.le_of_lt hlt) (isAt_of_ne hnext hquote))
      fun hat hlt => ih hat hlt hdepth
  | comment hs _ ih =>
    exact closingFrom_append h hlt (fun hat _ hlt => stepsTo_comment hs hat (Nat.le_of_lt hlt))
      fun hat hlt => ih hat hlt hdepth
  | templateComment hs _ ih =>
    exact closingFrom_append h hlt
      (fun hat _ hlt => stepsTo_templateComment hs hat (Nat.le_of_lt hlt))
      fun hat hlt => ih hat hlt hdepth
  | @group inner rest next _ _ ihinner ihrest =>
    have hlen : i + (k.opener :: (inner ++ k.closer :: rest)).length
        = i + 1 + inner.length + 1 + rest.length := by
      simp only [List.length_cons, List.length_append]
      omega
    rw [hlen] at hlt ⊢
    rw [List.cons_append, List.append_assoc] at h
    have hinner : src.Spells (inner ++ [k.closer]) (i + 1) := h.tail.upTo
    have hrest : src.Spells (rest ++ [next]) (i + 1 + inner.length + 1) := h.tail.right.tail
    calc (closingFrom src k opening stop depth i).map (·.1)
      _ = (closingFrom src k opening stop (depth + 1) (i + 1)).map (·.1) :=
        (stepsTo_opener h.head hinner.first (by omega)).closingFrom_eq
      _ = (closingFrom src k opening stop (depth + 1) (i + 1 + inner.length)).map (·.1) :=
        ihinner hinner (by omega) (Nat.le_succ_of_le hdepth)
      _ = (closingFrom src k opening stop depth (i + 1 + inner.length + 1)).map (·.1) :=
        (stepsTo_closer hinner.right.head hrest.first (by omega) hdepth).closingFrom_eq
      _ = (closingFrom src k opening stop depth
            (i + 1 + inner.length + 1 + rest.length)).map (·.1) :=
        ihrest hrest hlt hdepth
  | @byte b next rest hb hopen _ ih =>
    exact closingFrom_append (s := [b]) h hlt
      (fun hat hnext hlt => stepsTo_byte hat.head hnext hlt hb hopen)
      fun hat hlt => ih hat hlt hdepth

/-- The search begins behind the opening bracket. -/
theorem closing_eq_closingFrom (hat : src[i]? = some k.opener) :
    (closing src i stop).map (·.1) = (closingFrom src k i stop 1 (i + 1)).map (·.1) := by
  rw [closing, bind_of_eq (byteAt_of_eq hat), Bracket.ofOpener?_opener]
  exact map_bind_of_eq fun _ => rfl

/-- The last bracket that is open is closed here. If the range goes on behind it, so does the
source, because one byte more is read. -/
theorem closingFrom_last (hat : src[i]? = some k.closer) (hlt : i < stop)
    (hbehind : i + 1 < stop → i + 1 < src.size) :
    (closingFrom src k opening stop 1 i).map (·.1) = .ok i := by
  obtain ⟨following, hfollowing⟩ := exists_byteAfter hbehind
  rw [closingFrom, dif_pos hlt,
    bind_of_eq (bracketStep_of_closer hat (Nat.le_refl 1) hfollowing)]
  rfl

/-- **The closing bracket is found**: between the brackets stands well-formed content, behind
them anything, and the range ends anywhere behind the closing bracket (in the source, if it
goes on behind it at all). -/
theorem closing_content (hcontent : k.Content text k.closer)
    (h : src.Spells (k.opener :: (text ++ [k.closer])) i) (hlt : i + 1 + text.length < stop)
    (hbehind : i + 1 + text.length + 1 < stop → i + 1 + text.length + 1 < src.size) :
    (closing src i stop).map (·.1) = .ok (i + 1 + text.length) :=
  calc (closing src i stop).map (·.1)
    _ = (closingFrom src k i stop 1 (i + 1)).map (·.1) := closing_eq_closingFrom h.head
    _ = (closingFrom src k i stop 1 (i + 1 + text.length)).map (·.1) :=
      hcontent.passed h.tail hlt (Nat.le_refl 1)
    _ = .ok (i + 1 + text.length) := closingFrom_last h.tail.right.head hlt hbehind

/-- The bytes of `"}"/*}*/@"{""{"{}//}`, with the newline that ends the comment. -/
def bracesInLiterals : List UInt8 :=
  [0x22, 0x7D, 0x22] ++ ([0x2F, 0x2A, 0x7D, 0x2A, 0x2F]
    ++ ([0x40, 0x22, 0x7B, 0x22, 0x22, 0x7B, 0x22]
      ++ (0x7B :: ([] ++ 0x7D :: ([0x2F, 0x2F, 0x7D, 0x0A] ++ [])))))

/-- Braces in a string, in comments and in a verbatim string, and a pair of braces. -/
theorem closing_content_braces :
    Bracket.curly.Content bracesInLiterals 0x7D
      ∧ Bytes.Spells (0x7B :: (bracesInLiterals ++ [0x7D])).toArray
          (0x7B :: (bracesInLiterals ++ [0x7D])) 0
      ∧ 0 + 1 + bracesInLiterals.length < 23
      ∧ (closing (0x7B :: (bracesInLiterals ++ [0x7D])).toArray 0 23).map (·.1) = .ok 22 := by
  have hstring : IsString [0x22, 0x7D, 0x22] :=
    @IsString.quoted [0x7D] (.byte (by decide) (by decide) (by decide) .nil)
  have hblock : IsComment [0x2F, 0x2A, 0x7D, 0x2A, 0x2F] := @IsComment.block [0x7D] (by decide)
  have hverbatim : IsVerbatim [0x40, 0x22, 0x7B, 0x22, 0x22, 0x7B, 0x22] :=
    @IsVerbatim.quoted [0x7B, 0x22, 0x22, 0x7B]
      (.byte (by decide) (.doubled (.byte (by decide) .nil)))
  have hline : IsComment [0x2F, 0x2F, 0x7D, 0x0A] := @IsComment.line [0x7D] (by decide)
  have hcontent : Bracket.curly.Content bracesInLiterals 0x7D :=
    .string hstring <| .comment hblock <| .verbatim hverbatim (by decide) <|
      .group .nil (.comment hline .nil)
  have hspells : Bytes.Spells (0x7B :: (bracesInLiterals ++ [0x7D])).toArray
      (0x7B :: (bracesInLiterals ++ [0x7D])) 0 := by decide +kernel
  exact ⟨hcontent, hspells, by decide,
    closing_content hcontent hspells (by decide) (by decide)⟩

end SyntaxForest.Template.Lexical
