import SyntaxForest.Proofs.Template.Braces

/-!
# Where the rules of a template stop

`Answers` says what a scan answers, and `StopsWith` what it stops with. The lexical rules read
no position outside the source, so those for words, literals and elements never stop. The
search for a closing bracket does: if something that opens in the source is never closed, the
bracket itself or a comment on the way (`Fault.NamesOpening`). It is to be made at an opening
bracket, and then no other fault arises (`closing_stops`).
-/

namespace SyntaxForest.Template

open Lexical

/-! ## Faults -/

/-- **What opens at an offset**, if it is never closed. -/
def Unclosed.OpensAt (src : Bytes) (i : Nat) : Unclosed → Prop
  | .comment => src[i]? = some 0x40 ∧ src[i + 1]? = some 0x2A
  | .block => src[i]? = some 0x7B
  | .expression => src[i]? = some 0x28 ∨ src[i]? = some 0x5B

/-- **A fault that names an unterminated construct** by where it opens in the source. -/
def Fault.NamesOpening (src : Bytes) (f : Fault) : Prop :=
  ∃ what offset, f = .unterminated what offset ∧ what.OpensAt src offset

/-- **What a scan stops with**, if it stops: each fault is one of `p`. -/
def StopsWith {α : Type} (p : Fault → Prop) (x : Scan α) : Prop := ∀ f, x = .error f → p f

variable {src : Bytes} {i stop mark : Nat} {p : Fault → Prop}

/-- What opens at an offset stands in the source. -/
theorem Unclosed.OpensAt.lt_size {what : Unclosed} (h : what.OpensAt src i) : i < src.size := by
  have hread : ∀ {b}, src[i]? = some b → i < src.size := fun hb =>
    (Array.getElem?_eq_some_iff.mp hb).1
  cases what with
  | comment => exact hread h.1
  | block => exact hread h
  | expression => exact h.elim hread hread

/-- Where an opening bracket stands, the construct that it would leave open begins. -/
theorem Lexical.Bracket.opensAt (k : Bracket) (h : src[i]? = some k.opener) :
    k.unclosed.OpensAt src i := by
  cases k with
  | round => exact .inl h
  | square => exact .inr h
  | curly => exact h

theorem Lexical.Bracket.ofOpener?_opener (k : Bracket) : Bracket.ofOpener? k.opener = some k := by
  cases k <;> rfl

namespace StopsWith

variable {α β : Type} {x : Scan α}

theorem pure {a : α} : StopsWith p (Pure.pure a : Scan α) := fun _ hf => nomatch hf

theorem ok {a : α} : StopsWith p (.ok a : Scan α) := fun _ hf => nomatch hf

theorem error {f : Fault} (h : p f) : StopsWith p (.error f : Scan α) := by
  rintro g ⟨⟩
  exact h

theorem throw {f : Fault} (h : p f) : StopsWith p (MonadExcept.throw f : Scan α) := .error h

/-- **One scan after another**: it stops as the first does, or as the second does after an
answer of the first. -/
theorem bind {q : α → Prop} {f : α → Scan β} (hx : StopsWith p x) (ha : Answers x q)
    (hf : ∀ a, q a → StopsWith p (f a)) : StopsWith p (x >>= f) := by
  intro g hg
  cases x with
  | error e =>
    cases hg
    exact hx _ rfl
  | ok a => exact hf a (ha a rfl) g hg

theorem mapM {f : β → Scan α} {l : List β} (h : ∀ b ∈ l, StopsWith p (f b)) :
    StopsWith p (l.mapM f) := by
  induction l with
  | nil =>
    rw [List.mapM_nil]
    exact .pure
  | cons b l ih =>
    rw [List.mapM_cons]
    refine .bind (h b (List.mem_cons_self ..)) .any fun a _ => ?_
    exact .bind (ih fun c hc => h c (List.mem_cons_of_mem _ hc)) .any fun as _ => .pure

end StopsWith

namespace Lexical

/-! ## Bytes, blanks and words -/

theorem byteAt_stops (h : i < src.size) : StopsWith p (byteAt src i) := by
  rw [byteAt, Array.getElem?_eq_getElem h]
  exact .ok

theorem byteBefore_stops {back : Nat} (hback : back ≤ i) (h : i - back < src.size) :
    StopsWith p (byteBefore src i back) := by
  rw [byteBefore, if_pos hback]
  exact byteAt_stops h

theorem byteAfter_stops (hs : stop ≤ src.size) : StopsWith p (byteAfter src i stop) := by
  rw [byteAfter]
  split
  · exact byteAt_stops (by omega)
  · exact .ok

/-- The byte after a position, if it is one of the range. -/
theorem byteAfter_eq : Answers (byteAfter src i stop) fun b =>
    b ≠ 0 → i + 1 < stop ∧ src[i + 1]? = some b := by
  rw [byteAfter]
  split
  · next hlt => exact byteAt_eq.mono fun b hb _ => ⟨hlt, hb⟩
  · exact .ok fun h => absurd rfl h

/-- What is skipped is of the class that is skipped. -/
theorem skipWhile_all {q : UInt8 → Bool} : Answers (skipWhile q src i stop)
    fun n => ∀ j, i ≤ j → j < n.1 → (src[j]?).any q = true := by
  induction hn : stop - i generalizing i with
  | zero =>
    rw [skipWhile, if_neg (by omega)]
    exact .ok fun j hj hlt => absurd hlt (Nat.not_lt.mpr hj)
  | succ n ih =>
    rw [skipWhile, if_pos (by omega)]
    refine .bind byteAt_eq fun b hb => ?_
    split
    · next hq =>
      refine .bind (ih (by omega)) ?_
      rintro ⟨m, hm⟩ hall
      refine .pure fun j hj hlt => ?_
      rcases Nat.eq_or_lt_of_le hj with rfl | hj
      · rw [hb]
        exact hq
      · exact hall j hj hlt
    · exact .pure fun j hj hlt => absurd hlt (Nat.not_lt.mpr hj)

/-- No byte is skipped with a class that it is not of. -/
theorem skipWhile_free {q : UInt8 → Bool} {b : UInt8} (hq : q b = false) :
    Answers (skipWhile q src i stop) fun n => ∀ j, i ≤ j → j < n.1 → src[j]? ≠ some b := by
  refine skipWhile_all.mono fun n hall j hj hlt hat => ?_
  have hany := hall j hj hlt
  rw [hat, Option.any_some, hq] at hany
  cases hany

theorem isAt_stops (hs : stop ≤ src.size) {b : UInt8} : StopsWith p (isAt src b i stop) := by
  rw [isAt]
  split
  · exact .bind (byteAt_stops (by omega)) .any fun c _ => .pure
  · exact .ok

/-- Skipping never fails inside the source. -/
theorem skipWhile_stops (hs : stop ≤ src.size) {q : UInt8 → Bool} :
    StopsWith p (skipWhile q src i stop) := by
  induction hn : stop - i generalizing i with
  | zero =>
    rw [skipWhile, if_neg (by omega)]
    exact .ok
  | succ n ih =>
    rw [skipWhile, if_pos (by omega)]
    refine .bind (byteAt_stops (by omega)) .any fun b _ => ?_
    split
    · exact .bind (ih (by omega)) .any fun m _ => .pure
    · exact .pure

theorem wordStartsAt_stops (hs : stop ≤ src.size) : StopsWith p (wordStartsAt src i stop) := by
  rw [wordStartsAt]
  split
  · exact .bind (byteAt_stops (by omega)) .any fun b _ => .pure
  · exact .ok

/-- Reading a word never fails inside the source. -/
theorem wordAt_stops (hs : stop ≤ src.size) : StopsWith p (wordAt src i stop) := by
  refine .bind (wordStartsAt_stops hs) .any fun starts _ => ?_
  split
  · exact .bind (skipWhile_stops hs) .any fun n _ => .pure
  · exact .pure

/-! ## Literals -/

theorem stringClose?_stops (hs : stop ≤ src.size) : StopsWith p (stringClose? src i stop) := by
  induction hn : stop - i using Nat.strongRecOn generalizing i with
  | ind n ih =>
    rw [stringClose?]
    split
    · refine .bind (byteAt_stops (by omega)) .any fun b _ => ?_
      split
      · exact .pure
      · split
        · exact .pure
        · split
          · exact .bind (ih _ (by omega) rfl) .any fun o _ => .pure
          · exact .bind (ih _ (by omega) rfl) .any fun o _ => .pure
    · exact .ok

/-- Passing a string never fails: one without an end is no string. -/
theorem skipString_stops (hs : stop ≤ src.size) : StopsWith p (skipString src i stop) := by
  refine .bind (stringClose?_stops hs) .any fun o _ => ?_
  cases o with
  | none => exact .pure
  | some n => exact .pure

theorem verbatimClose?_stops (hs : stop ≤ src.size) :
    StopsWith p (verbatimClose? src i stop) := by
  induction hn : stop - i using Nat.strongRecOn generalizing i with
  | ind n ih =>
    rw [verbatimClose?]
    split
    · refine .bind (byteAt_stops (by omega)) .any fun b _ => ?_
      split
      · refine .bind (isAt_stops hs) .any fun doubled _ => ?_
        split
        · exact .bind (ih _ (by omega) rfl) .any fun o _ => .pure
        · exact .pure
      · exact .bind (ih _ (by omega) rfl) .any fun o _ => .pure
    · exact .ok

/-- Passing a verbatim string never fails: one without an end is no string. -/
theorem skipVerbatim_stops (hs : stop ≤ src.size) : StopsWith p (skipVerbatim src i stop) := by
  refine .bind (verbatimClose?_stops hs) .any fun o _ => ?_
  cases o with
  | none => exact .pure
  | some n => exact .pure

/-! ## Brackets -/

/-- **A step of the search for a closing bracket** stops at an unclosed comment only. -/
theorem bracketStep_stops {k : Bracket} {depth : Nat} (hs : stop ≤ src.size) (h : i < stop) :
    StopsWith (Fault.NamesOpening src) (bracketStep src k stop depth i h) := by
  refine .bind (byteAt_stops (by omega)) byteAt_eq fun b hb => ?_
  refine .bind (byteAfter_stops hs) byteAfter_eq fun following hfollowing => ?_
  split
  · exact .bind (skipString_stops hs) .any fun n _ => .pure
  · split
    · exact .pure
    · split
      · exact .bind (skipVerbatim_stops hs) .any fun n _ => .pure
      · split
        · next hcomment =>
          rw [Bool.and_eq_true, beq_iff_eq, beq_iff_eq] at hcomment
          obtain ⟨rfl, rfl⟩ := hcomment
          split
          · exact .pure
          · exact .throw ⟨.comment, i, rfl, hb, (hfollowing (by decide)).2⟩
        · split
          · exact .pure
          · split
            · exact .pure
            · split
              · exact .pure
              · split
                · split <;> exact .pure
                · exact .pure

/-- **The search for a bracket** fails only for an opening that is never closed. -/
theorem closingFrom_stops {k : Bracket} {opening depth : Nat} (hs : stop ≤ src.size)
    (ho : k.unclosed.OpensAt src opening) :
    StopsWith (Fault.NamesOpening src) (closingFrom src k opening stop depth i) := by
  induction hn : stop - i using Nat.strongRecOn generalizing i depth with
  | ind n ih =>
    rw [closingFrom]
    split
    · refine .bind (bracketStep_stops hs _) .any fun r _ => ?_
      split
      · exact .pure
      · refine .bind (ih _ (by omega) rfl) .any ?_
        rintro ⟨m, h₁, h₂⟩ -
        exact .pure
    · exact .error ⟨_, opening, rfl, ho⟩

/-- **The search for a closing bracket** is made at an opening one, and then stops only if
something is never closed. -/
theorem closing_stops (k : Bracket) (hs : stop ≤ src.size) (h : src[i]? = some k.opener) :
    StopsWith (Fault.NamesOpening src) (closing src i stop) := by
  refine .bind (byteAt_stops (Array.getElem?_eq_some_iff.mp h).1) byteAt_eq fun b hb => ?_
  obtain rfl : k.opener = b := Option.some.inj (h.symm.trans hb)
  rw [k.ofOpener?_opener]
  exact .bind (closingFrom_stops hs (k.opensAt h)) .any fun _ _ => .pure

/-! ## Elements -/

theorem tagEndFrom_stops (hs : stop ≤ src.size) : StopsWith p (tagEndFrom src i stop) := by
  induction hn : stop - i using Nat.strongRecOn generalizing i with
  | ind n ih =>
    rw [tagEndFrom]
    split
    · refine .bind (byteAt_stops (by omega)) .any fun b _ => ?_
      split
      · split
        · next close hclose =>
          have hb := Bytes.find_bounds hclose
          exact .bind (ih _ (by omega) rfl) .any fun m _ => .pure
        · exact .pure
      · split
        · exact .pure
        · exact .bind (ih _ (by omega) rfl) .any fun m _ => .pure
    · exact .ok

theorem hasTagName_stops {name : Bytes} (hs : stop ≤ src.size) :
    StopsWith p (hasTagName src name i stop) :=
  .bind (skipWhile_stops hs) .any fun _ _ => .pure

/-- The tags inside an element are not the first of the source, so the two bytes before the
end of one can be read. -/
theorem elementEndFrom_stops {name : Bytes} {depth : Nat} (hs : stop ≤ src.size) (hi : 0 < i) :
    StopsWith p (elementEndFrom src name stop depth i) := by
  induction hn : stop - i using Nat.strongRecOn generalizing i depth with
  | ind n ih =>
    rw [elementEndFrom]
    split
    · split
      · exact .ok
      · next lt hlt =>
        have hb := Bytes.find_bounds hlt
        have hlen : lt + 1 ≤ stop := hb.2.1
        refine .bind (isAt_stops hs) .any fun isEnd _ => ?_
        refine .bind (hasTagName_stops hs) .any fun named _ => ?_
        split
        · refine .bind (tagEndFrom_stops hs) tagEnd_le ?_
          rintro ⟨next, hnext⟩ hle
          dsimp only at hle ⊢
          split
          · split
            · exact .pure
            · exact .bind (ih _ (by omega) (by omega) rfl) .any fun m _ => .pure
          · refine .bind (byteBefore_stops (by omega) (by omega)) .any fun b _ => ?_
            exact .bind (ih _ (by omega) (by omega) rfl) .any fun m _ => .pure
        · exact .bind (ih _ (by omega) (by omega) rfl) .any fun m _ => .pure
    · exact .ok

/-- **No element stops a scan**: one that is never closed runs to the end of the range. -/
theorem elementEnd_stops (hs : stop ≤ src.size) (h : i + 1 < stop) :
    StopsWith p (elementEnd src i stop) := by
  refine .bind (tagEndFrom_stops hs) tagEnd_le ?_
  rintro ⟨tagStop, htag⟩ hle
  refine .bind (byteAt_stops (by omega)) .any fun first _ => ?_
  dsimp only at hle ⊢
  split
  · exact .pure
  · next hmore =>
    rw [Bool.or_eq_true, not_or, decide_eq_true_iff] at hmore
    refine .bind (byteBefore_stops (by omega) (by omega)) .any fun last _ => ?_
    split
    · exact .pure
    · refine .bind (skipWhile_stops hs) .any fun nameStop _ => ?_
      refine .bind (byteBefore_stops (by omega) (by omega)) .any fun slash _ => ?_
      split
      · exact .pure
      · exact .bind (elementEndFrom_stops hs (by omega)) .any fun n _ => .pure

end Lexical

end SyntaxForest.Template
