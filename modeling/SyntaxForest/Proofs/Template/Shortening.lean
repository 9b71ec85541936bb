import SyntaxForest.Proofs.Template.Faults

/-!
# Reading less of a range

A construct that was found in a long range is read a second time in a range that ends where the
construct does. The lexical rules look ahead, so the second range could show them less than the
first did. This module says of each rule how it reads the shorter range: as it read the longer
one, if what it answered there lies in the shorter one. For brackets there is one exception
to be kept out. A verbatim string that is never closed is plain text, and a cut right behind a
quote may close it; so the shorter range must not end with a quote.
-/

namespace SyntaxForest.Template

open Lexical

variable {src : Bytes} {i stop short : Nat}

namespace Answers

variable {ε α : Type} {x : Except ε α} {p q : α → Prop}

/-- Two things that are known of the answer. -/
theorem and (hp : Answers x p) (hq : Answers x q) : Answers x fun a => p a ∧ q a :=
  fun a ha => ⟨hp a ha, hq a ha⟩

end Answers

/-- What comes after an answer is a matter of the answer. -/
theorem bind_of_eq {ε α β : Type} {x : Except ε α} {a : α} (h : x = .ok a)
    (f : α → Except ε β) : (x >>= f) = f a := by
  rw [h]
  rfl

/-- What answers has answered at each step. -/
theorem exists_of_bind {ε α β : Type} {x : Except ε α} {f : α → Except ε β} {b : β}
    (h : (x >>= f) = .ok b) : ∃ a, x = .ok a ∧ f a = .ok b := by
  cases x with
  | error e => cases h
  | ok a => exact ⟨a, rfl, h⟩

/-- **A second reading** `y` repeats the first one: to each answer of the first that is one of
`p`, the second has an answer that stands to it as `r` says. -/
def Repeats {α β : Type} (p : α → Prop) (r : α → β → Prop) (x : Scan α) (y : Scan β) : Prop :=
  ∀ a, x = .ok a → p a → ∃ b, y = .ok b ∧ r a b

namespace Repeats

variable {α β γ δ : Type} {p : α → Prop} {r : α → β → Prop} {x : Scan α} {y : Scan β}

theorem refl : Repeats p Eq x x := fun a ha _ => ⟨a, ha, rfl⟩

theorem pure {a : α} {b : β} (h : p a → r a b) :
    Repeats p r (Pure.pure a : Scan α) (Pure.pure b : Scan β) := by
  rintro a' ⟨⟩ hp
  exact ⟨b, rfl, h hp⟩

/-- Nothing is to be repeated. -/
theorem vacuous (h : Answers x fun a => ¬ p a) : Repeats p r x y :=
  fun a ha hp => absurd hp (h a ha)

theorem of_eq {y : Scan α} (h : Answers x fun a => p a → y = .ok a) : Repeats p Eq x y :=
  fun a ha hp => ⟨a, h a ha hp, rfl⟩

/-- **One step after another.** The first is repeated if its answer is one of `q`, as it is
wherever what comes after it answers with one of `p`. -/
theorem bind {q : γ → Prop} {s : γ → δ → Prop} {x : Scan γ} {y : Scan δ} {f : γ → Scan α}
    {g : δ → Scan β} (hx : Repeats q s x y)
    (hq : ∀ c, x = .ok c → Answers (f c) fun a => p a → q c)
    (hf : ∀ c d, x = .ok c → s c d → Repeats p r (f c) (g d)) :
    Repeats p r (x >>= f) (y >>= g) := by
  intro a ha hp
  cases hx' : x with
  | error e =>
    rw [hx'] at ha
    cases ha
  | ok c =>
    rw [bind_of_eq hx'] at ha
    obtain ⟨d, hd, hs⟩ := hx c hx' (hq c hx' a ha hp)
    rw [bind_of_eq hd]
    exact hf c d hx' hs a ha hp

/-- An answer of which something is made. -/
theorem map {q : γ → Prop} {x y : Scan γ} {f : γ → α} (h : Repeats q Eq x y)
    (hq : ∀ c, p (f c) → q c) : Repeats p Eq (do return f (← x)) (do return f (← y)) :=
  h.bind (fun c _ => .pure (hq c)) fun _ _ _ heq => .pure fun _ => congrArg f heq

/-- A step that reads the same both times. -/
theorem bind_same {x : Scan γ} {f : γ → Scan α} {g : γ → Scan β}
    (hf : ∀ c, x = .ok c → Repeats p r (f c) (g c)) : Repeats p r (x >>= f) (x >>= g) :=
  bind (q := fun _ => True) refl (fun _ _ => .mono .any fun _ _ _ => trivial) fun c _ hc heq =>
    heq ▸ hf c hc

theorem ite {c : Prop} [Decidable c] {x x' : Scan α} {y y' : Scan β}
    (h : c → Repeats p r x y) (h' : ¬ c → Repeats p r x' y') :
    Repeats p r (if c then x else x') (if c then y else y') := by
  split
  · next hc => exact h hc
  · next hc => exact h' hc

end Repeats

/-- **No quote stands right before** a position. -/
def Unquoted (src : Bytes) (n : Nat) : Prop := src[n - 1]? ≠ some 0x22

namespace Lexical

/-! ## Bytes, blanks and words -/

theorem byteAfter_short (h : i + 1 < short) (hs : short ≤ stop) :
    byteAfter src i short = byteAfter src i stop := by
  rw [byteAfter, byteAfter, if_pos h, if_pos (by omega)]

/-- In front of the shorter end both ranges show the same byte. -/
theorem isAt_short {b : UInt8} (h : i < short) (hs : short ≤ stop) :
    isAt src b i short = isAt src b i stop := by
  rw [isAt, isAt, if_pos h, if_pos (by omega)]

/-- There is no byte at the end of a range. -/
theorem isAt_end {b : UInt8} (h : short ≤ i) : isAt src b i short = .ok false :=
  if_neg (Nat.not_lt.mpr h)

/-- In front of the shorter end a word begins in both ranges or in none. -/
theorem wordStartsAt_short (h : i < short) (hs : short ≤ stop) :
    wordStartsAt src i short = wordStartsAt src i stop := by
  rw [wordStartsAt, wordStartsAt, if_pos h, if_pos (by omega)]

/-- No word begins at the end of a range. -/
theorem wordStartsAt_end (h : short ≤ i) : wordStartsAt src i short = .ok false :=
  if_neg (Nat.not_lt.mpr h)

theorem isAt_within {b : UInt8} (hs : short ≤ stop) : Answers (isAt src b i stop) fun found =>
    (found = true → i < short) → isAt src b i short = .ok found := by
  intro found hfound hlt
  rcases Nat.lt_or_ge i short with hnear | hfar
  · rw [isAt_short hnear hs, hfound]
  · rw [isAt_end hfar, eq_false_of_ne_true fun h => Nat.not_lt.mpr hfar (hlt h)]

theorem wordStartsAt_within (hs : short ≤ stop) : Answers (wordStartsAt src i stop) fun starts =>
    (starts = true → i < short) → wordStartsAt src i short = .ok starts := by
  intro starts hstarts hlt
  rcases Nat.lt_or_ge i short with hnear | hfar
  · rw [wordStartsAt_short hnear hs, hstarts]
  · rw [wordStartsAt_end hfar, eq_false_of_ne_true fun h => Nat.not_lt.mpr hfar (hlt h)]

/-- What is at a position is seen there in each range that holds it. -/
theorem isAt_of_eq {b : UInt8} (h : i < stop) (hb : src[i]? = some b) :
    isAt src b i stop = .ok true := by
  rw [isAt, if_pos h, byteAt, hb]
  exact congrArg Except.ok (beq_self_eq_true b)

/-- What is not at a position is seen there in no range. -/
theorem isAt_of_ne {b c : UInt8} (hb : src[i]? = some b) (hne : b ≠ c) :
    isAt src c i stop = .ok false := by
  rw [isAt]
  split
  · rw [byteAt, hb]
    exact congrArg Except.ok (beq_eq_false_iff_ne.mpr hne)
  · rfl

/-- Nothing is skipped at a byte that is not of the class. -/
theorem skipWhile_of_not {p : UInt8 → Bool} {b : UInt8} (hb : src[i]? = some b)
    (hp : p b = false) : skipWhile p src i stop = .ok (.here i) := by
  rw [skipWhile]
  split
  · rw [byteAt, hb]
    exact if_neg (ne_true_of_eq_false hp)
  · rfl

/-- A byte that is not there is not there where the shorter range ends before it. -/
theorem isAt_min {b : UInt8} (hs : short ≤ stop) (h : isAt src b i stop = .ok false) :
    isAt src b (min i short) short = .ok false := by
  rcases Nat.lt_or_ge i short with hlt | hge
  · rw [Nat.min_eq_left (Nat.le_of_lt hlt), isAt_short hlt hs, h]
  · exact isAt_end (Nat.le_min.mpr ⟨hge, Nat.le_refl _⟩)

theorem wordStartsAt_min (hs : short ≤ stop) (h : wordStartsAt src i stop = .ok false) :
    wordStartsAt src (min i short) short = .ok false := by
  rcases Nat.lt_or_ge i short with hlt | hge
  · rw [Nat.min_eq_left (Nat.le_of_lt hlt), wordStartsAt_short hlt hs, h]
  · exact wordStartsAt_end (Nat.le_min.mpr ⟨hge, Nat.le_refl _⟩)

/-- **What is skipped in the shorter range** is what is skipped in the longer one, as far as the
shorter one goes. -/
theorem skipWhile_short {p : UInt8 → Bool} (hi : i ≤ short) (hs : short ≤ stop) :
    Answers (skipWhile p src i stop) fun n =>
      skipWhile p src i short = .ok ⟨min n.1 short, Nat.le_min.mpr ⟨n.2, hi⟩⟩ := by
  induction hn : short - i generalizing i with
  | zero =>
    refine Answers.any.mono fun n _ => ?_
    have heq : min n.1 short = i := by
      have := n.2
      omega
    rw [skipWhile, if_neg (by omega)]
    exact congrArg Except.ok (Subtype.ext heq.symm)
  | succ n ih =>
    rw [skipWhile, if_pos (by omega)]
    refine .bind .self fun b hb => ?_
    split
    · next hp =>
      refine .bind (ih (by omega) (by omega)) ?_
      rintro ⟨m, hm⟩ hrest
      refine .pure ?_
      rw [skipWhile, if_pos (by omega), bind_of_eq hb, if_pos hp, bind_of_eq hrest]
      rfl
    · next hp =>
      refine .pure ?_
      have heq : min i short = i := Nat.min_eq_left hi
      rw [skipWhile, if_pos (by omega), bind_of_eq hb, if_neg hp]
      exact congrArg Except.ok (Subtype.ext heq.symm)

/-- **Skipping that stops inside the shorter range** stops there in it. -/
theorem skipWhile_within {p : UInt8 → Bool} (hs : short ≤ stop) :
    Answers (skipWhile p src i stop) fun n => n.1 ≤ short → skipWhile p src i short = .ok n := by
  intro n hn hle
  rw [skipWhile_short (Nat.le_trans n.2 hle) hs n hn]
  exact congrArg Except.ok (Subtype.ext (Nat.min_eq_left hle))

/-- A byte of the class is skipped. -/
theorem skipWhile_lt {p : UInt8 → Bool} {b : UInt8} (h : i < stop) (hb : src[i]? = some b)
    (hp : p b = true) : Answers (skipWhile p src i stop) (i < ·.1) := by
  rw [skipWhile, if_pos h]
  refine .bind byteAt_eq fun c hc => ?_
  obtain rfl : b = c := Option.some.inj (hb.symm.trans hc)
  rw [if_pos hp]
  exact .bind .any fun n _ => .pure n.2

theorem wordStartsAt_eq : Answers (wordStartsAt src i stop) fun starts => starts = true →
    i < stop ∧ ∃ b, src[i]? = some b ∧ Bytes.startsWord b = true := by
  rw [wordStartsAt]
  split
  · next hlt => exact .bind byteAt_eq fun b hb => .pure fun hword => ⟨hlt, b, hb, hword⟩
  · exact .ok fun h => absurd h Bool.false_ne_true

theorem inWord_of_startsWord {b : UInt8} (h : Bytes.startsWord b = true) :
    Bytes.inWord b = true := by
  rw [Bytes.inWord, h, Bool.true_or]

/-- A word has a byte. -/
theorem identifierEnd_lt (h : wordStartsAt src i stop = .ok true) :
    Answers (identifierEnd src i stop) (i < ·.1) := by
  obtain ⟨hlt, b, hb, hword⟩ := wordStartsAt_eq _ h rfl
  exact skipWhile_lt hlt hb (inWord_of_startsWord hword)

/-- **A word that ends inside the shorter range** is read in it. -/
theorem wordAt_short (hs : short ≤ stop) : Answers (wordAt src i stop) fun r =>
    r.2.1 ≤ short → wordAt src i short = .ok r := by
  refine .bind .self fun starts hstarts => ?_
  split
  · next hword =>
    subst hword
    refine .bind ((identifierEnd_lt hstarts).and (skipWhile_within hs)) ?_
    rintro ⟨n, hn⟩ ⟨hlt, hend⟩
    refine .pure fun hle => ?_
    dsimp only at hlt hle
    rw [wordAt, wordStartsAt_short (by omega) hs, bind_of_eq hstarts, if_pos rfl, identifierEnd,
      bind_of_eq (hend hle)]
    rfl
  · next hno =>
    refine .pure fun _ => ?_
    rw [wordAt, bind_of_eq (wordStartsAt_within hs starts hstarts fun h => absurd h hno),
      if_neg hno]
    rfl

/-! ## Literals -/

/-- What was found later, is named from an earlier position and lies before a bound. -/
theorem filter_map_widen {i j n : Nat} {o : Option (AtLeast j)} {f : AtLeast j → AtLeast i}
    (hf : ∀ m, (f m).1 = m.1) :
    (o.filter (·.1 < n)).map f = (o.map f).filter (·.1 < n) := by
  cases o with
  | none => rfl
  | some m =>
    rw [Option.map_some, Option.filter_some, Option.filter_some, hf]
    split <;> rfl

theorem filter_of_lt {i n : Nat} {m : AtLeast i} (h : m.1 < n) :
    (some m).filter (·.1 < n) = some m := by
  rw [Option.filter_some, if_pos (decide_eq_true h)]

/-- What lies at or behind a position lies behind a bound before it. -/
theorem filter_atLeast {i n : Nat} (h : n ≤ i) (o : Option (AtLeast i)) :
    o.filter (·.1 < n) = none := by
  refine Option.filter_eq_none_iff.mpr fun m _ => ?_
  have := m.2
  simp
  omega

/-- **The quote that closes a string in the shorter range** is the one that closes it in the
longer, if that is still there. -/
theorem stringClose?_short (hs : short ≤ stop) : Answers (stringClose? src i stop) fun o =>
    stringClose? src i short = .ok (o.filter (·.1 < short)) := by
  induction hn : stop - i using Nat.strongRecOn generalizing i with
  | ind n ih =>
    rcases Nat.lt_or_ge i short with hlt | hge
    · rw [stringClose?, if_pos (by omega)]
      refine .bind .self fun b hb => ?_
      split
      · next hquote =>
        refine .pure ?_
        rw [stringClose?, if_pos hlt, bind_of_eq hb, if_pos hquote]
        exact congrArg Except.ok (filter_of_lt hlt).symm
      · next hquote =>
        split
        · next hline =>
          refine .pure ?_
          rw [stringClose?, if_pos hlt, bind_of_eq hb, if_neg hquote, if_pos hline]
          rfl
        · next hline =>
          split
          · next hescape =>
            refine .bind (ih _ (by omega) rfl) fun o ho => .pure ?_
            rw [stringClose?, if_pos hlt, bind_of_eq hb, if_neg hquote, if_neg hline,
              if_pos hescape, bind_of_eq ho]
            exact congrArg Except.ok (filter_map_widen fun _ => rfl)
          · next hescape =>
            refine .bind (ih _ (by omega) rfl) fun o ho => .pure ?_
            rw [stringClose?, if_pos hlt, bind_of_eq hb, if_neg hquote, if_neg hline,
              if_neg hescape, bind_of_eq ho]
            exact congrArg Except.ok (filter_map_widen fun _ => rfl)
    · intro o _
      rw [stringClose?, if_neg (by omega), filter_atLeast hge]

/-- A string that ends inside the shorter range is passed in it. -/
theorem skipString_short (hs : short ≤ stop) : Answers (skipString src i stop) fun n =>
    n.1 ≤ short → skipString src i short = .ok n := by
  refine .bind (stringClose?_short hs) fun o ho => ?_
  cases o with
  | none =>
    refine .pure fun _ => ?_
    rw [skipString, bind_of_eq ho]
    rfl
  | some m =>
    refine .pure fun hle => ?_
    rw [skipString, bind_of_eq ho, filter_of_lt hle]
    rfl

/-- **The quote that closes a verbatim string in the shorter range**: a cut behind a quote would
part two quotes that stand for one. -/
theorem verbatimClose?_short (hs : short ≤ stop) (hq : Unquoted src short) :
    Answers (verbatimClose? src i stop) fun o =>
      verbatimClose? src i short = .ok (o.filter (·.1 < short)) := by
  induction hn : stop - i using Nat.strongRecOn generalizing i with
  | ind n ih =>
    rcases Nat.lt_or_ge i short with hlt | hge
    · rw [verbatimClose?, if_pos (by omega)]
      refine .bind (.and .self byteAt_eq) ?_
      rintro b ⟨hb, hat⟩
      split
      · next hquote =>
        have hnext : i + 1 < short := by
          rw [beq_iff_eq.mp hquote] at hat
          by_contra hlast
          obtain rfl : i = short - 1 := by omega
          exact hq hat
        refine .bind .self fun doubled hdoubled => ?_
        rw [← isAt_short hnext hs] at hdoubled
        split
        · next htwo =>
          refine .bind (ih _ (by omega) rfl) fun o ho => .pure ?_
          rw [verbatimClose?, if_pos hlt, bind_of_eq hb, if_pos hquote, bind_of_eq hdoubled,
            if_pos htwo, bind_of_eq ho]
          exact congrArg Except.ok (filter_map_widen fun _ => rfl)
        · next htwo =>
          refine .pure ?_
          rw [verbatimClose?, if_pos hlt, bind_of_eq hb, if_pos hquote, bind_of_eq hdoubled,
            if_neg htwo]
          exact congrArg Except.ok (filter_of_lt hlt).symm
      · next hquote =>
        refine .bind (ih _ (by omega) rfl) fun o ho => .pure ?_
        rw [verbatimClose?, if_pos hlt, bind_of_eq hb, if_neg hquote, bind_of_eq ho]
        exact congrArg Except.ok (filter_map_widen fun _ => rfl)
    · intro o _
      rw [verbatimClose?, if_neg (by omega), filter_atLeast hge]

/-- A verbatim string that ends inside the shorter range is passed in it, if no quote stands right
before the end of that range. -/
theorem skipVerbatim_short (hs : short ≤ stop) (hq : Unquoted src short) :
    Answers (skipVerbatim src i stop) fun n =>
      n.1 ≤ short → skipVerbatim src i short = .ok n := by
  refine .bind (verbatimClose?_short hs hq) fun o ho => ?_
  cases o with
  | none =>
    refine .pure fun _ => ?_
    rw [skipVerbatim, bind_of_eq ho]
    rfl
  | some m =>
    refine .pure fun hle => ?_
    rw [skipVerbatim, bind_of_eq ho, filter_of_lt hle]
    rfl

/-- **The first occurrence in the shorter range** is the first one in the longer, if it is still
there. -/
theorem find_short {needle : List UInt8} (hs : short ≤ stop) :
    src.find needle i short
      = (src.find needle i stop).filter fun found => found + needle.length ≤ short := by
  refine Option.ext fun found => ?_
  rw [Option.filter_eq_some_iff, Bytes.find_eq_some_iff, Bytes.find_eq_some_iff,
    decide_eq_true_iff, Nat.le_min, Nat.le_min]
  refine ⟨fun h => ⟨⟨⟨h.1.1, ⟨Nat.le_trans h.1.2.1.1 hs, h.1.2.1.2⟩, h.1.2.2⟩, h.2⟩,
    h.1.2.1.1⟩, fun h => ⟨⟨h.1.1.1, ⟨h.2, h.1.1.2.1.2⟩, h.1.1.2.2⟩, h.1.2⟩⟩

/-- What is found inside the shorter range is found in it. -/
theorem find_of_le {needle : List UInt8} {found : Nat} (hs : short ≤ stop)
    (h : src.find needle i stop = some found) (hle : found + needle.length ≤ short) :
    src.find needle i short = some found := by
  rw [find_short hs, h, Option.filter_some, if_pos (decide_eq_true hle)]

/-- Where a character literal ends. -/
theorem skipChar_val : (skipChar src i stop).1 =
    match src.find [0x27] (i + 1) (min stop (i + 10)) with
    | some close => if (src.slice i close).contains Bytes.newline then i + 1 else close + 1
    | none => i + 1 := by
  unfold skipChar
  split
  · next close hclose =>
    simp only [hclose]
    split <;> rfl
  · next hnone => simp only [hnone, AtLeast.here]

/-- A character that ends inside the shorter range is passed in it. -/
theorem skipChar_short (hs : short ≤ stop) (hle : (skipChar src i stop).1 ≤ short) :
    skipChar src i short = skipChar src i stop := by
  have hmin : min short (i + 10) ≤ min stop (i + 10) := by omega
  refine Subtype.ext ?_
  rw [skipChar_val] at hle
  rw [skipChar_val, skipChar_val, find_short hmin]
  cases hfind : src.find [0x27] (i + 1) (min stop (i + 10)) with
  | none => rfl
  | some close =>
    have hnear := (Bytes.find_bounds hfind).2.1
    rw [hfind] at hle
    dsimp only at hle ⊢
    by_cases hkept : decide (close + ([0x27] : List UInt8).length ≤ min short (i + 10)) = true
    · rw [Option.filter_some, if_pos hkept]
    · rw [Option.filter_some, if_neg hkept]
      split at hle
      · next hline => exact (if_pos hline).symm
      · exact absurd (decide_eq_true (Nat.le_min.mpr
          ⟨hle, Nat.le_trans hnear (Nat.min_le_right _ _)⟩)) hkept

/-! ## Brackets -/

/-- Where a search that falls back on the end of the range ends. -/
theorem pastOrStop_val {needle : List UInt8} {low : Nat} {hi : low ≤ i} {hl : low ≤ stop} :
    (pastOrStop src needle i stop hi hl).1 =
      ((src.find needle i stop).map (· + needle.length)).getD stop := by
  unfold pastOrStop
  split
  · next found hfound => simp only [hfound, Option.map_some, Option.getD_some]
  · next hnone => simp only [hnone, Option.map_none, Option.getD_none]

theorem pastOrStop_short {needle : List UInt8} {low : Nat} {hi : low ≤ i} {hl : low ≤ stop}
    {hl' : low ≤ short} (hs : short ≤ stop) (hlt : (pastOrStop src needle i stop hi hl).1 < short) :
    pastOrStop src needle i short hi hl' = pastOrStop src needle i stop hi hl := by
  refine Subtype.ext ?_
  rw [pastOrStop_val] at hlt
  rw [pastOrStop_val, pastOrStop_val]
  cases hfind : src.find needle i stop with
  | none =>
    rw [hfind] at hlt
    exact absurd hs (Nat.not_le.mpr hlt)
  | some found =>
    rw [hfind] at hlt
    rw [find_of_le hs hfind (Nat.le_of_lt hlt)]
    rfl

/-- **The search ends at the closing bracket**, whatever follows it. -/
theorem bracketStep_of_closer {k : Bracket} {depth : Nat} {h : i < stop} {following : UInt8}
    (hat : src[i]? = some k.closer) (hdepth : depth ≤ 1)
    (hfollowing : byteAfter src i stop = .ok following) :
    bracketStep src k stop depth i h = .ok none := by
  have hb : byteAt src i = .ok k.closer := by
    rw [byteAt, hat]
  rw [bracketStep, bind_of_eq hb, bind_of_eq hfollowing]
  cases k <;> exact if_pos hdepth

/-- **One step in the shorter range**: what is passed there in full is passed alike, and the
bracket that ends the search ends it. -/
theorem bracketStep_short {k : Bracket} {depth : Nat} (hs : short ≤ stop)
    (hq : Unquoted src short) (hlt : i < short) (h : i < stop) :
    Repeats (∀ next ∈ ·, next.1.1 < short) Eq (bracketStep src k stop depth i h)
      (bracketStep src k short depth i hlt) := by
  rcases Nat.lt_or_ge (i + 1) short with hnear | hlast
  · refine .bind_same fun b _ => ?_
    rw [byteAfter_short hnear hs]
    refine .bind_same fun following _ => ?_
    have hpast : ∀ {n : AtLeast (i + 1)} {depth : Nat},
        (∀ next ∈ some (n, depth), next.1.1 < short) → n.1 < short := fun hr => hr _ rfl
    refine .ite (fun _ => ?_) fun _ => ?_
    · exact .map (.of_eq (skipString_short hs)) fun n hr => Nat.le_of_lt (hpast hr)
    refine .ite (fun _ => ?_) fun _ => ?_
    · refine .pure fun hr => ?_
      rw [skipChar_short hs (Nat.le_of_lt (hpast hr))]
    refine .ite (fun _ => ?_) fun _ => ?_
    · exact .map (.of_eq (skipVerbatim_short hs hq)) fun n hr => Nat.le_of_lt (hpast hr)
    refine .ite (fun _ => .of_eq ?_) fun _ => ?_
    · split
      · next close hclose =>
        refine .pure fun hr => ?_
        have hfind := find_of_le hs hclose (Nat.le_of_lt (hpast hr))
        split
        · next close' hclose' =>
          obtain rfl : close = close' := Option.some.inj (hfind.symm.trans hclose')
          rfl
        · next hnone => exact absurd (hfind.symm.trans hnone) (Option.some_ne_none _)
      · exact .throw
    refine .ite (fun _ => ?_) fun _ => ?_
    · refine .pure fun hr => ?_
      rw [pastOrStop_short hs (hpast hr)]
    refine .ite (fun _ => ?_) fun _ => ?_
    · refine .pure fun hr => ?_
      rw [pastOrStop_short hs (hpast hr)]
    refine .ite (fun _ => .refl) fun _ => ?_
    exact .ite (fun _ => .refl) fun _ => .refl
  · refine .of_eq fun r hr hbefore => ?_
    cases r with
    | none =>
      obtain ⟨hat, hdepth⟩ := bracketStep_closer h none hr rfl
      exact bracketStep_of_closer hat hdepth (if_neg (Nat.not_lt.mpr hlast))
    | some next =>
      have := next.1.2
      have := hbefore next rfl
      omega

/-- **The search for a bracket** that ends inside the shorter range takes the same way in it. -/
theorem closingFrom_short {k : Bracket} {opening depth : Nat} (hs : short ≤ stop)
    (hq : Unquoted src short) :
    Repeats (·.1 < short) (·.1 = ·.1) (closingFrom src k opening stop depth i)
      (closingFrom src k opening short depth i) := by
  induction hn : stop - i using Nat.strongRecOn generalizing i depth with
  | ind n ih =>
    rcases Nat.lt_or_ge i short with hlt | hge
    · rw [closingFrom, closingFrom, dif_pos (Nat.lt_of_lt_of_le hlt hs), dif_pos hlt]
      refine .bind (bracketStep_short hs hq hlt _) (fun r _ => ?_) fun r r' _ heq => ?_
      · cases r with
        | none =>
          exact Answers.any.mono fun n _ _ next hnext => absurd hnext (Option.not_mem_none _)
        | some next =>
          refine .bind .any ?_
          rintro ⟨n, h₁, h₂⟩ -
          refine .pure fun hlt => ?_
          rintro next ⟨⟩
          exact Nat.lt_of_le_of_lt h₁ hlt
      · subst heq
        cases r with
        | none => exact .pure fun _ => rfl
        | some next =>
          obtain ⟨⟨next, hnext⟩, depth⟩ := next
          refine .bind (q := (·.1 < short)) (ih _ (by omega) rfl) ?_ ?_
          · rintro ⟨n, h₁, h₂⟩ -
            exact .pure id
          · rintro ⟨n, h₁, h₂⟩ ⟨n', h₁', h₂'⟩ - heq
            exact .pure fun _ => heq
    · exact .vacuous fun n _ => Nat.not_lt.mpr (Nat.le_trans hge n.2.1)

/-- **The bracket that closes another in the shorter range** is the one that closes it in the
longer, if it is still there. -/
theorem closing_short (hs : short ≤ stop) (hq : Unquoted src short) :
    Repeats (·.1 < short) (·.1 = ·.1) (closing src i stop) (closing src i short) := by
  refine .bind_same fun b _ => ?_
  split
  · refine .bind (closingFrom_short hs hq) ?_ ?_
    · rintro ⟨n, h₁, h₂⟩ -
      exact .pure id
    · rintro ⟨n, h₁, h₂⟩ ⟨n', h₁', h₂'⟩ - heq
      exact .pure fun _ => heq
  · exact .vacuous .throw

/-- **A bracket that closes inside the shorter range** is found in it, if no quote stands right
before the end of that range. -/
theorem closing_within (hs : short ≤ stop) (hq : Unquoted src short) :
    Answers (closing src i stop) fun n =>
      ∀ h : n.1 < short, closing src i short = .ok ⟨n.1, n.2.1, h⟩ := by
  intro n hn hlt
  obtain ⟨m, hm, heq⟩ := closing_short hs hq n hn hlt
  rw [hm]
  exact congrArg Except.ok (Subtype.ext heq.symm)

/-! ## No quote where a rule ends -/

theorem unquoted_succ {b : UInt8} (hb : src[i]? = some b) (hne : b ≠ 0x22) :
    Unquoted src (i + 1) := by
  rw [Unquoted, Nat.add_sub_cancel, hb]
  exact fun heq => hne (Option.some.inj heq)

theorem Bracket.closer_ne_quote (k : Bracket) : k.closer ≠ 0x22 := by
  cases k <;> decide

/-- Behind a closing bracket there is no quote. -/
theorem closing_unquoted : Answers (closing src i stop) fun n => Unquoted src (n.1 + 1) := by
  refine .bind .any fun b _ => ?_
  split
  · next k _ =>
    refine .bind closingFrom_closer ?_
    rintro ⟨n, hn⟩ hcloser
    exact .pure (unquoted_succ hcloser k.closer_ne_quote)
  · exact .throw

/-- Skipping other bytes than quotes ends behind no quote. -/
theorem skipWhile_unquoted {p : UInt8 → Bool} (hp : p 0x22 = false) (h : Unquoted src i) :
    Answers (skipWhile p src i stop) fun n => Unquoted src n.1 := by
  refine (skipWhile_free hp).mono fun n hfree => ?_
  rcases Nat.eq_or_lt_of_le n.2 with heq | hlt
  · exact heq ▸ h
  · exact hfree (n.1 - 1) (by omega) (by omega)

theorem skipBlanks_unquoted (h : Unquoted src i) :
    Answers (skipBlanks src i stop) fun n => Unquoted src n.1 :=
  skipWhile_unquoted (by decide) h

theorem identifierEnd_unquoted (h : Unquoted src i) :
    Answers (identifierEnd src i stop) fun n => Unquoted src n.1 :=
  skipWhile_unquoted (by decide) h

/-- A word ends with a byte of a word. -/
theorem wordAt_last : Answers (wordAt src i stop) fun r =>
    r.1 ≠ "" → i < r.2.1 ∧ Unquoted src r.2.1 := by
  refine .bind .self fun starts hstarts => ?_
  split
  · next hword =>
    subst hword
    refine .bind ((identifierEnd_lt hstarts).and (skipWhile_free (b := 0x22) (by decide))) ?_
    rintro ⟨n, hn⟩ ⟨hlt, hfree⟩
    dsimp only at hlt hfree
    exact .pure fun _ => ⟨hlt, hfree (n - 1) (by omega) (by omega)⟩
  · exact .pure fun hne => absurd rfl hne

theorem wordAt_unquoted (h : Unquoted src i) :
    Answers (wordAt src i stop) fun r => Unquoted src r.2.1 := by
  refine .bind .any fun starts _ => ?_
  split
  · exact .bind (identifierEnd_unquoted h) fun n hn => .pure hn
  · exact .pure h

end Lexical

end SyntaxForest.Template
