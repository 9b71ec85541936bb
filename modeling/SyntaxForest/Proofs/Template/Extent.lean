import Mathlib.Data.List.Forall2
import SyntaxForest.Template.Scanner

/-!
# How far the rules of a template read

The lower end of every answer of the lexical rules is part of its type. This
module adds the upper end: a rule that is asked about a range answers with a
position of that range, also when what it reads is cut by the range's end.

`Answers` is the form in which this is said. A scan may stop with a fault, and
the statement is then about nothing; whether a scan stops is another matter.
-/

namespace SyntaxForest.Template

/-- **What a computation answers**, if it answers: each answer is one of `p`. -/
def Answers {ε α : Type} (x : Except ε α) (p : α → Prop) : Prop := ∀ a, x = .ok a → p a

namespace Answers

variable {ε α β : Type} {x : Except ε α} {p q : α → Prop} {r : β → Prop}

theorem pure {a : α} (h : p a) : Answers (Pure.pure a : Except ε α) p := by
  intro b hb
  cases hb
  exact h

theorem ok {a : α} (h : p a) : Answers (.ok a : Except ε α) p := Answers.pure h

theorem error {e : ε} : Answers (.error e : Except ε α) p := fun _ hb => nomatch hb

theorem throw {e : ε} : Answers (MonadExcept.throw e : Except ε α) p := fun _ hb => nomatch hb

/-- What is answered is known to be the answer. -/
theorem self : Answers x fun a => x = .ok a := fun _ ha => ha

/-- Nothing is asked of the answer. -/
theorem any : Answers x fun _ => True := fun _ _ => trivial

/-- What holds of every answer may be weakened. -/
theorem mono (h : Answers x p) (hpq : ∀ a, p a → q a) : Answers x q :=
  fun a ha => hpq a (h a ha)

/-- **One computation after another**: what the second answers may rest on what the
first did. -/
theorem bind {f : α → Except ε β} (hx : Answers x p) (hf : ∀ a, p a → Answers (f a) r) :
    Answers (x >>= f) r := by
  intro b hb
  cases x with
  | error e => cases hb
  | ok a => exact hf a (hx a rfl) b hb

/-- Each of several: the answers stand to what was scanned as each
single answer does. -/
theorem mapM {f : β → Except ε α} {s : β → α → Prop} {l : List β}
    (h : ∀ b ∈ l, Answers (f b) (s b)) : Answers (l.mapM f) (List.Forall₂ s l) := by
  induction l with
  | nil =>
    rw [List.mapM_nil]
    exact .pure .nil
  | cons b l ih =>
    rw [List.mapM_cons]
    refine .bind (h b (List.mem_cons_self ..)) fun a ha => ?_
    refine .bind (ih fun c hc => h c (List.mem_cons_of_mem _ hc)) fun as has => ?_
    exact .pure (.cons ha has)

/-- An answer that passes a check. -/
theorem of_all {c : α → Bool} (h : x.toOption.all c = true) : Answers x fun a => c a = true := by
  rintro a rfl
  exact h

/-- A computation whose answer is there and passes a check. -/
theorem exists_of_any {c : α → Bool} (h : x.toOption.any c = true) :
    ∃ a, x = .ok a ∧ c a = true := by
  cases x with
  | error e => cases h
  | ok a => exact ⟨a, rfl, h⟩

/-- A computation that was run and gave an answer. -/
theorem exists_of_map {f : α → β} {b : β} (h : x.map f = .ok b) : ∃ a, x = .ok a ∧ f a = b := by
  cases x with
  | error e => cases h
  | ok a => exact ⟨a, rfl, Except.ok.inj h⟩

end Answers

namespace Lexical

variable {src : Bytes} {i stop : Nat}

/-! ## Blanks and words -/

theorem skipWhile_le (p : UInt8 → Bool) (src : Bytes) {i stop : Nat} (h : i ≤ stop) :
    Answers (skipWhile p src i stop) (·.1 ≤ stop) := by
  induction hn : stop - i generalizing i with
  | zero =>
    rw [skipWhile, if_neg (by omega)]
    exact .ok h
  | succ n ih =>
    rw [skipWhile, if_pos (by omega)]
    refine .bind .any fun b _ => ?_
    split
    · refine .bind (ih (by omega) (by omega)) ?_
      rintro ⟨m, hm⟩ hle
      exact .pure hle
    · exact .pure h

/-- Blanks are skipped inside the range. -/
theorem skipBlanks_le (h : i ≤ stop) : Answers (skipBlanks src i stop) (·.1 ≤ stop) :=
  skipWhile_le _ src h

/-- A word ends inside the range. -/
theorem identifierEnd_le (h : i ≤ stop) : Answers (identifierEnd src i stop) (·.1 ≤ stop) :=
  skipWhile_le _ src h

theorem wordAt_le (h : i ≤ stop) : Answers (wordAt src i stop) (·.2.1 ≤ stop) := by
  refine .bind .any fun b _ => ?_
  split
  · exact .bind (identifierEnd_le h) fun n hn => .pure hn
  · exact .pure h

/-- A byte that is found at a position lies inside the range. -/
theorem isAt_lt {b : UInt8} : Answers (isAt src b i stop) fun found => found = true → i < stop := by
  rw [isAt]
  split
  · next hlt => exact .bind .any fun c _ => .pure fun _ => hlt
  · exact .ok (by simp)

theorem wordStartsAt_lt :
    Answers (wordStartsAt src i stop) fun found => found = true → i < stop := by
  rw [wordStartsAt]
  split
  · next hlt => exact .bind .any fun c _ => .pure fun _ => hlt
  · exact .ok (by simp)

/-! ## Literals -/

/-- A position that was found later and is named from an earlier one. -/
theorem forall_mem_map_widen {stop i j : Nat} {o : Option (AtLeast j)} {f : AtLeast j → AtLeast i}
    (hf : ∀ n, (f n).1 = n.1) (h : ∀ n ∈ o, n.1 < stop) : ∀ n ∈ o.map f, n.1 < stop := by
  intro n hn
  obtain ⟨m, hm, rfl⟩ := Option.map_eq_some_iff.mp hn
  rw [hf]
  exact h m hm

/-- The quote that closes a string is a byte of the range. -/
theorem stringClose?_lt (src : Bytes) (cursor stop : Nat) :
    Answers (stringClose? src cursor stop) (∀ n ∈ ·, n.1 < stop) := by
  induction hn : stop - cursor using Nat.strongRecOn generalizing cursor with
  | ind n ih =>
    rw [stringClose?]
    split
    · refine .bind .any fun b _ => ?_
      split
      · exact .pure (by simpa [AtLeast.here])
      · split
        · exact .pure (by simp)
        · split
          · refine .bind (ih _ (by omega) (cursor + 2) rfl) fun o ho => ?_
            exact .pure (forall_mem_map_widen (fun _ => rfl) ho)
          · refine .bind (ih _ (by omega) (cursor + 1) rfl) fun o ho => ?_
            exact .pure (forall_mem_map_widen (fun _ => rfl) ho)
    · exact .ok (by simp)

/-- A string ends inside the range. -/
theorem skipString_le (h : i < stop) : Answers (skipString src i stop) (·.1 ≤ stop) := by
  refine .bind (stringClose?_lt src (i + 1) stop) fun o ho => ?_
  cases o with
  | none => exact .pure h
  | some n => exact .pure (ho n rfl)

theorem verbatimClose?_lt (src : Bytes) (cursor stop : Nat) :
    Answers (verbatimClose? src cursor stop) (∀ n ∈ ·, n.1 < stop) := by
  induction hn : stop - cursor using Nat.strongRecOn generalizing cursor with
  | ind n ih =>
    rw [verbatimClose?]
    split
    · refine .bind .any fun b _ => ?_
      split
      · refine .bind .any fun doubled _ => ?_
        split
        · refine .bind (ih _ (by omega) (cursor + 2) rfl) fun o ho => ?_
          exact .pure (forall_mem_map_widen (fun _ => rfl) ho)
        · exact .pure (by simpa [AtLeast.here])
      · refine .bind (ih _ (by omega) (cursor + 1) rfl) fun o ho => ?_
        exact .pure (forall_mem_map_widen (fun _ => rfl) ho)
    · exact .ok (by simp)

/-- A verbatim string ends inside the range. -/
theorem skipVerbatim_le (h : i < stop) : Answers (skipVerbatim src i stop) (·.1 ≤ stop) := by
  refine .bind (verbatimClose?_lt src (i + 2) stop) fun o ho => ?_
  cases o with
  | none => exact .pure h
  | some n => exact .pure (ho n rfl)

theorem skipChar_le (h : i < stop) : (skipChar src i stop).1 ≤ stop := by
  rw [skipChar]
  split
  · next close hclose =>
    have hb := Bytes.find_bounds hclose
    split
    · exact h
    · exact Nat.le_trans hb.2.1 (Nat.min_le_left _ _)
  · exact h

/-! ## Searches that fall back on the end of the range -/

variable {needle : List UInt8} {low : Nat} (hi : low ≤ i) (hs : low ≤ stop)

theorem pastOrStop_le : (pastOrStop src needle i stop hi hs).1 ≤ stop := by
  rw [pastOrStop]
  split
  · next found hfound => exact (Bytes.find_bounds hfound).2.1
  · exact Nat.le_refl _

theorem upTo_le : (upTo src needle i stop hi hs).1 ≤ stop := by
  rw [upTo]
  split
  · next found hfound => exact Nat.le_trans (Nat.le_add_right _ _) (Bytes.find_bounds hfound).2.1
  · exact Nat.le_refl _

theorem le_upTo (h : i ≤ stop) : i ≤ (upTo src needle i stop hi hs).1 := by
  rw [upTo]
  split
  · next found hfound => exact (Bytes.find_bounds hfound).1
  · exact h

/-! ## Elements -/

theorem tagEndFrom_le (src : Bytes) (cursor stop : Nat) :
    Answers (tagEndFrom src cursor stop) (·.1 ≤ stop) := by
  induction hn : stop - cursor using Nat.strongRecOn generalizing cursor with
  | ind n ih =>
    rw [tagEndFrom]
    split
    · refine .bind .any fun b _ => ?_
      split
      · split
        · next close hclose =>
          have hb := Bytes.find_bounds hclose
          refine .bind (ih _ (by omega) (close + 1) rfl) ?_
          rintro ⟨m, hm⟩ hle
          exact .pure hle
        · exact .pure (Nat.le_refl _)
      · split
        · exact .pure (by assumption)
        · refine .bind (ih _ (by omega) (cursor + 1) rfl) ?_
          rintro ⟨m, hm⟩ hle
          exact .pure hle
    · exact .ok (Nat.le_refl _)

/-- A tag ends inside the range. -/
theorem tagEnd_le : Answers (tagEnd src i stop) (·.1 ≤ stop) := tagEndFrom_le src (i + 1) stop

theorem elementEndFrom_le (src name : Bytes) (stop depth cursor : Nat) :
    Answers (elementEndFrom src name stop depth cursor) (·.1 ≤ stop) := by
  induction hn : stop - cursor using Nat.strongRecOn generalizing depth cursor with
  | ind n ih =>
    rw [elementEndFrom]
    split
    · split
      · exact .ok (Nat.le_refl _)
      · next lt hlt =>
        have hb := Bytes.find_bounds hlt
        have hlen : lt + 1 ≤ stop := hb.2.1
        refine .bind .any fun isEnd _ => ?_
        refine .bind .any fun named _ => ?_
        split
        · refine .bind tagEnd_le ?_
          rintro ⟨next, hnext⟩ hle
          dsimp only
          split
          · split
            · exact .pure hle
            · refine .bind (ih _ (by omega) (depth - 1) next rfl) ?_
              rintro ⟨m, hm⟩ hle
              exact .pure hle
          · refine .bind .any fun b _ => ?_
            refine .bind (ih _ (by omega) _ next rfl) ?_
            rintro ⟨m, hm⟩ hle
            exact .pure hle
        · refine .bind (ih _ (by omega) depth (lt + 1) rfl) ?_
          rintro ⟨m, hm⟩ hle
          exact .pure hle
    · exact .ok (Nat.le_refl _)

/-- **An element ends inside the range.** -/
theorem elementEnd_le : Answers (elementEnd src i stop) (·.1 ≤ stop) := by
  refine .bind tagEnd_le ?_
  rintro ⟨tagStop, h⟩ hle
  refine .bind .any fun first _ => ?_
  dsimp only
  split
  · exact .pure hle
  · refine .bind .any fun last _ => ?_
    split
    · exact .pure hle
    · refine .bind .any fun nameStop _ => ?_
      refine .bind .any fun slash _ => ?_
      split
      · exact .pure hle
      · refine .bind (elementEndFrom_le src _ stop 1 tagStop) ?_
        rintro ⟨m, hm⟩ hle
        exact .pure hle

end Lexical

end SyntaxForest.Template
