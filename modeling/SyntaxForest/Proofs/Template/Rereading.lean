import SyntaxForest.Proofs.Template.Settling
import SyntaxForest.Proofs.Template.Shortening

/-!
# Reading a construct again

A construct that stands in code is read twice: when the code is cut into runs, in the range of the
code, and when its run is scanned, in a range that ends where the construct does. Both readings give
the same construct (`readTransition_reread`), so a run that is a construct is scanned as that one
construct (`segments_reread`).

Where a construct ends, the next byte may still be looked at: whether a member follows an
expression, a clause a body, a brace the word of a control statement. At the end of the shorter
range there is nothing to see, and each rule has to take that as it took what it saw. Directives
are left out. They end with their line, whatever is open there, and the line by itself may hold
the bracket of a `using` statement that is closed below.
-/

namespace SyntaxForest.Template

open Lexical

variable {src : Bytes} {i stop short mark : Nat}

/-! ## Implicit expressions -/

theorem implicitEnd_unquoted (h : Unquoted src i) :
    Answers (implicitEnd src i stop) fun n => Unquoted src n.1 := by
  induction hn : stop - i using Nat.strongRecOn generalizing i with
  | ind n ih =>
    rw [implicitEnd]
    split
    · refine .bind byteAt_eq fun b hb => ?_
      refine .bind byteAfter_eq fun following hfollowing => ?_
      split
      · next hdot =>
        have hdot : b = 0x2E := by simpa using (Bool.and_eq_true_iff.mp hdot).1
        subst hdot
        refine .bind (identifierEnd_unquoted (unquoted_succ hb (by decide))) ?_
        rintro ⟨m, hm⟩ hunquoted
        refine .bind (ih _ (by omega) hunquoted rfl) ?_
        rintro ⟨k, hk⟩ hrest
        exact .pure hrest
      · refine .bind (p := fun starts => starts = true → following = 0x2E) ?_
          fun starts hstarts => ?_
        · split
          · next hoptional =>
            exact Answers.any.mono fun _ _ _ => by simpa using (Bool.and_eq_true_iff.mp hoptional).2
          · exact .pure fun h => absurd h Bool.false_ne_true
        split
        · next hword =>
          obtain rfl := hstarts hword
          refine .bind (identifierEnd_unquoted
            (unquoted_succ (hfollowing (by decide)).2 (by decide))) ?_
          rintro ⟨m, hm⟩ hunquoted
          refine .bind (ih _ (by omega) hunquoted rfl) ?_
          rintro ⟨k, hk⟩ hrest
          exact .pure hrest
        · split
          · refine .bind closing_unquoted ?_
            rintro ⟨close, h₁, h₂⟩ hunquoted
            refine .bind (ih _ (by omega) hunquoted rfl) ?_
            rintro ⟨k, hk⟩ hrest
            exact .pure hrest
          · exact .pure h
    · exact .ok h

/-- **An implicit expression in a range that ends with it** is the same. -/
theorem implicitEnd_short (hs : short ≤ stop) (hq : Unquoted src short) :
    Answers (implicitEnd src i stop) fun n => n.1 = short → implicitEnd src i short = .ok n := by
  induction hn : stop - i using Nat.strongRecOn generalizing i with
  | ind n ih =>
    rw [implicitEnd]
    split
    · refine .bind .self fun b hb => ?_
      refine .bind (.and .self byteAfter_eq) ?_
      rintro following ⟨hnext, hfollowing⟩
      split
      -- a member
      · next hdot =>
        have hword := (Bool.and_eq_true_iff.mp hdot).2
        obtain ⟨hlt, hat⟩ := hfollowing fun hzero => by
          rw [hzero] at hword
          exact absurd hword (by decide)
        refine .bind ((skipWhile_lt hlt hat (inWord_of_startsWord hword)).and
          (skipWhile_within hs)) ?_
        rintro ⟨m, hm⟩ ⟨hpast, hend⟩
        refine .bind (ih _ (by omega) rfl) ?_
        rintro ⟨k, hk⟩ hrest
        refine .pure fun (heq : k = short) => ?_
        dsimp only at hpast hend
        rw [implicitEnd, if_pos (by omega), bind_of_eq hb, byteAfter_short (by omega) hs,
          bind_of_eq hnext, if_pos hdot]
        exact (bind_of_eq (hend (by omega)) _).trans (bind_of_eq (hrest heq) _)
      · next hdot =>
        refine .bind (p := fun starts => (starts = true → wordStartsAt src (i + 2) stop = .ok true)
          ∧ ((starts = true → i + 2 < short) → (if b == 0x3F && following == 0x2E then
            wordStartsAt src (i + 2) short else return false) = .ok starts)) ?_ ?_
        · split
          · exact .and (fun starts h hword => hword ▸ h) (wordStartsAt_within hs)
          · exact .pure ⟨fun h => absurd h Bool.false_ne_true, fun _ => rfl⟩
        rintro starts ⟨hword, hoptional⟩
        split
        -- a member of what may be missing
        · next hstarts =>
          refine .bind ((identifierEnd_lt (hword hstarts)).and (skipWhile_within hs)) ?_
          rintro ⟨m, hm⟩ ⟨hpast, hend⟩
          refine .bind (ih _ (by omega) rfl) ?_
          rintro ⟨k, hk⟩ hrest
          refine .pure fun (heq : k = short) => ?_
          dsimp only at hpast hend
          rw [implicitEnd, if_pos (by omega), bind_of_eq hb, byteAfter_short (by omega) hs,
            bind_of_eq hnext, if_neg hdot, bind_of_eq (hoptional fun _ => by omega), if_pos hstarts]
          exact (bind_of_eq (hend (by omega)) _).trans (bind_of_eq (hrest heq) _)
        · next hstarts =>
          split
          -- a call or an index
          · next hopens =>
            refine .bind (closing_within hs hq) ?_
            rintro ⟨close, h₁, h₂⟩ hclose
            refine .bind (ih _ (by omega) rfl) ?_
            rintro ⟨k, hk⟩ hrest
            refine .pure fun (heq : k = short) => ?_
            dsimp only at hclose hk
            rw [implicitEnd, if_pos (by omega), bind_of_eq hb, byteAfter_short (by omega) hs,
              bind_of_eq hnext, if_neg hdot, bind_of_eq (hoptional fun h => absurd h hstarts),
              if_neg hstarts, if_pos hopens]
            exact (bind_of_eq (hclose (by omega)) _).trans (bind_of_eq (hrest heq) _)
          -- nothing goes on
          · refine .pure fun (heq : i = short) => ?_
            rw [implicitEnd, if_neg (by omega)]
    · refine .ok fun (heq : i = short) => ?_
      rw [implicitEnd, if_neg (by omega)]

/-- After `await` the expression is read on from where the operand's first word ends. -/
theorem readImplicit_operand {hi : mark < i} {operand : AtLeast i} {n : AtLeast operand.1}
    (hoperand : skipBlanks src i stop = .ok operand)
    (hstarts : wordStartsAt src operand.1 stop = .ok true)
    (hn : identifierEnd src operand.1 stop = .ok n) :
    readImplicit src mark "await" i stop hi = readImplicit src mark "" n.1 stop
      (Nat.lt_of_lt_of_le hi (Nat.le_trans operand.2 n.2)) := by
  rw [readImplicit, if_pos rfl, bind_of_eq hoperand, readImplicit, if_neg (by decide)]
  dsimp only
  rw [bind_of_eq hstarts, if_pos rfl, bind_of_eq hn]

/-- Without an operand `await` is a word like any other. -/
theorem readImplicit_alone {hi : mark < i} {operand : AtLeast i}
    (hoperand : skipBlanks src i stop = .ok operand)
    (hstarts : wordStartsAt src operand.1 stop = .ok false) :
    readImplicit src mark "await" i stop hi = readImplicit src mark "" i stop hi := by
  rw [readImplicit, if_pos rfl, bind_of_eq hoperand, readImplicit, if_neg (by decide)]
  dsimp only
  rw [bind_of_eq hstarts, if_neg (by decide)]

/-- An implicit expression that ends where a shorter range does is read the same in it, unless its
word waits for another. -/
theorem readImplicit_short_of_ne {word : String} {hi : mark < i} (hs : short ≤ stop)
    (hq : Unquoted src short) (hword : word ≠ "await") :
    Answers (readImplicit src mark word i stop hi) fun r => r.1.isSome → r.2.1 = short →
      i ≤ short ∧ readImplicit src mark word i short hi = .ok r := by
  rw [readImplicit, if_neg hword]
  refine .bind (p := (· = ⟨i, hi⟩)) (.pure rfl) ?_
  rintro _ rfl
  refine .bind (isAt_within hs) fun equals hequals => ?_
  refine .bind (isAt_within hs) fun minus hminus => ?_
  refine .bind (isAt_within hs) fun colon hcolon => ?_
  split
  · exact .pure fun hsome => absurd hsome Bool.false_ne_true
  · next hno =>
    obtain ⟨⟨rfl, rfl⟩, rfl⟩ : (equals = false ∧ minus = false) ∧ colon = false := by
      simpa using hno
    refine .bind (implicitEnd_short hs hq) ?_
    rintro ⟨n, hn⟩ hend
    refine .pure fun _ (heq : n = short) => ⟨heq ▸ hn, ?_⟩
    rw [readImplicit, if_neg hword]
    refine (bind_of_eq (hequals fun h => absurd h Bool.false_ne_true) _).trans ?_
    refine (bind_of_eq (hminus fun h => absurd h Bool.false_ne_true) _).trans ?_
    refine (bind_of_eq (hcolon fun h => absurd h Bool.false_ne_true) _).trans ?_
    exact bind_of_eq (hend heq) _

/-- **An implicit expression in a range that ends with it** is read as it was. -/
theorem readImplicit_short {word : String} {hi : mark < i} (hs : short ≤ stop)
    (hq : Unquoted src short) :
    Answers (readImplicit src mark word i stop hi) fun r => r.1.isSome → r.2.1 = short →
      i ≤ short ∧ readImplicit src mark word i short hi = .ok r := by
  by_cases hword : word = "await"
  · subst hword
    intro r hr hsome heq
    obtain ⟨_, hlead, -⟩ := exists_of_bind hr
    obtain ⟨operand, hoperand, hrest⟩ := exists_of_bind hlead
    obtain ⟨starts, hstarts, hrest⟩ := exists_of_bind hrest
    cases starts with
    | true =>
      obtain ⟨n, hn, -⟩ := exists_of_bind hrest
      have hpast := identifierEnd_lt hstarts n hn
      rw [readImplicit_operand hoperand hstarts hn] at hr
      obtain ⟨hle, hshort⟩ := readImplicit_short_of_ne hs hq (by decide) r hr hsome heq
      have hoperand' := skipWhile_within hs operand hoperand (by omega)
      have hstarts' := wordStartsAt_within hs true hstarts fun _ => by omega
      have hn' := skipWhile_within hs n hn hle
      exact ⟨by omega, (readImplicit_operand hoperand' hstarts' hn').trans hshort⟩
    | false =>
      rw [readImplicit_alone hoperand hstarts] at hr
      obtain ⟨hle, hshort⟩ := readImplicit_short_of_ne hs hq (by decide) r hr hsome heq
      have hoperand' := skipWhile_short hle hs operand hoperand
      have hstarts' := wordStartsAt_min hs hstarts
      exact ⟨hle, (readImplicit_alone hoperand' hstarts').trans hshort⟩
  · exact readImplicit_short_of_ne hs hq hword

/-! ## Members -/

/-- **A block of members in a range that ends with it** is read as it was; and where there was
none, the shorter range shows none. -/
theorem readMembers_short {word : String} {hi : mark < i} (hs : short ≤ stop)
    (hq : Unquoted src short) :
    Answers (readMembers src mark word i stop hi) fun o =>
      (o = none → i ≤ short) → (∀ r ∈ o, r.2.1 = short) →
        i ≤ short ∧ readMembers src mark word i short hi = .ok o := by
  rw [readMembers]
  split
  · next hword =>
    refine .bind .self fun brace hbrace => ?_
    refine .bind .self fun opens hopens => ?_
    split
    · next hopen =>
      refine .bind (closing_within hs hq) ?_
      rintro ⟨close, h₂, h₃⟩ hclose
      refine .pure fun _ hend => ?_
      have hend : close + 1 = short := hend _ rfl
      have hbefore := brace.2
      dsimp only at hclose
      refine ⟨by omega, ?_⟩
      rw [readMembers, if_pos hword]
      refine (bind_of_eq (skipWhile_within hs brace hbrace (by omega)) _).trans ?_
      refine (bind_of_eq (isAt_within hs opens hopens fun _ => by omega) _).trans ?_
      refine (if_pos hopen).trans ?_
      exact bind_of_eq (hclose (by omega)) _
    · next hopen =>
      refine .pure fun hnone _ => ⟨hnone rfl, ?_⟩
      rw [eq_false_of_ne_true hopen] at hopens
      rw [readMembers, if_pos hword]
      refine (bind_of_eq (skipWhile_short (hnone rfl) hs brace hbrace) _).trans ?_
      exact bind_of_eq (isAt_min hs hopens) _
  · next hword =>
    refine .pure fun hnone _ => ⟨hnone rfl, ?_⟩
    rw [readMembers, if_neg hword]
    rfl

/-! ## Control statements -/

theorem isUsingDirective_short (hs : short ≤ stop) (hi : i ≤ short)
    (h : isUsingDirective src i stop = .ok false) : isUsingDirective src i short = .ok false := by
  obtain ⟨n, hn, hrest⟩ := exists_of_bind h
  refine (bind_of_eq (skipWhile_short hi hs n hn) _).trans ?_
  dsimp only at hrest ⊢
  rcases Nat.lt_or_ge n.1 short with hlt | hge
  · rw [Nat.min_eq_left (Nat.le_of_lt hlt), if_pos hlt]
    rwa [if_pos (by omega)] at hrest
  · exact if_neg (by omega)

theorem opensControl_of_ne {word : String} (hword : word ≠ "using") :
    opensControl src word i stop = .ok (controlKeywords.contains word) := by
  rw [opensControl, if_neg hword]
  cases controlKeywords.contains word <;> rfl

/-- A word that opens a control statement does so in a shorter range, if it ends inside it. -/
theorem opensControl_short {word : String} (hs : short ≤ stop) (hi : i ≤ short)
    (h : opensControl src word i stop = .ok true) : opensControl src word i short = .ok true := by
  by_cases hword : word = "using"
  · subst hword
    obtain ⟨directive, hdirective, hrest⟩ := exists_of_bind h
    obtain rfl : directive = false := by simpa using Except.ok.inj hrest
    exact bind_of_eq (isUsingDirective_short hs hi hdirective) _
  · rw [opensControl_of_ne hword] at h ⊢
    exact h

/-- **The condition before a body that the shorter range still shows** is read as it was. -/
theorem controlCondition?_short {keyword : String} (hs : short ≤ stop) (hq : Unquoted src short) :
    Answers (controlCondition? src keyword i stop) fun o =>
      ∀ r ∈ o, r.2.1 < short → controlCondition? src keyword i short = .ok (some r) := by
  refine .bind (skipWhile_within hs) ?_
  rintro ⟨cursor, h₁⟩ hcursor
  dsimp only at hcursor ⊢
  split
  · next hsection =>
    refine .bind (wordAt_short hs) ?_
    rintro ⟨name, nameEnd, h₂⟩ hname
    refine .bind (skipWhile_within hs) ?_
    rintro ⟨n, (h₃ : nameEnd ≤ n)⟩ hn
    refine .pure ?_
    rintro r ⟨⟩ (hlt : n < short)
    dsimp only at hname hn
    refine (bind_of_eq (hcursor (by omega)) _).trans ?_
    refine (if_pos hsection).trans ?_
    refine (bind_of_eq (hname (by omega)) _).trans ?_
    exact bind_of_eq (hn (Nat.le_of_lt hlt)) _
  · next hsection =>
    refine .bind (isAt_within hs) fun opens hopens => ?_
    split
    · next hopen =>
      refine .bind (closing_within hs hq) ?_
      rintro ⟨close, h₂, h₃⟩ hclose
      refine .bind (skipWhile_within hs) ?_
      rintro ⟨n, h₄⟩ hn
      refine .pure ?_
      rintro r ⟨⟩ (hlt : n < short)
      dsimp only at hclose hn
      refine (bind_of_eq (hcursor (by omega)) _).trans ?_
      refine (if_neg hsection).trans ?_
      refine (bind_of_eq (hopens fun _ => by omega) _).trans ?_
      refine (if_pos hopen).trans ?_
      refine (bind_of_eq (hclose (by omega)) _).trans ?_
      exact bind_of_eq (hn (Nat.le_of_lt hlt)) _
    · next hopen =>
      split
      · next hbare =>
        refine .pure ?_
        rintro r ⟨⟩ (hlt : cursor < short)
        refine (bind_of_eq (hcursor (Nat.le_of_lt hlt)) _).trans ?_
        refine (if_neg hsection).trans ?_
        refine (bind_of_eq (hopens fun h => absurd h hopen) _).trans ?_
        exact (if_neg hopen).trans (if_pos hbare)
      · exact .pure fun r hr => absurd hr (Option.not_mem_none r)

/-! ## Clauses -/

/-- No word is read at a byte that begins none. -/
theorem wordAt_of_not_starts {b : UInt8} (hb : src[i]? = some b)
    (hstarts : Bytes.startsWord b = false) : wordAt src i stop = .ok ("", .here i) := by
  have hno : wordStartsAt src i stop = .ok false := by
    rw [wordStartsAt]
    split
    · rw [byteAt, hb, ← hstarts]
      rfl
    · rfl
  exact bind_of_eq hno _

/-- **The head of a clause before a body** is read as it was. -/
theorem clauseHead_short {clause : String} (hs : short ≤ stop) (hq : Unquoted src short)
    {n : AtLeast i} (h : clauseHead src clause i stop = .ok n) (hle : n.1 ≤ short)
    (hbody : clause = "else" → src[n.1]? = some 0x7B) :
    clauseHead src clause i short = .ok n := by
  obtain ⟨⟨cursor, h₁⟩, hcursor, h⟩ := exists_of_bind h
  obtain ⟨⟨head, (h₂ : cursor ≤ head)⟩, hhead, h⟩ := exists_of_bind h
  obtain ⟨opens, hopens, h⟩ := exists_of_bind h
  -- where no `if` goes on, no word does
  have hat : head ≤ n.1 ∧ (opens = true → head < n.1) ∧ (clause = "else" →
      ∃ b, src[head]? = some b ∧ Bytes.startsWord b = false) := by
    cases opens with
    | true =>
      obtain ⟨⟨close, h₃, h₄⟩, -, h⟩ := exists_of_bind h
      obtain ⟨⟨m, (h₅ : close + 1 ≤ m)⟩, -, h⟩ := exists_of_bind h
      obtain rfl := Except.ok.inj h
      have hlt : head < m := by omega
      exact ⟨Nat.le_of_lt hlt, fun _ => hlt, fun _ => ⟨_, isAt_eq _ hopens rfl, by decide⟩⟩
    | false =>
      obtain rfl := Except.ok.inj h
      exact ⟨Nat.le_refl _, fun h => absurd h Bool.false_ne_true,
        fun helse => ⟨_, hbody helse, by decide⟩⟩
  obtain ⟨hhn, hlt, hat⟩ := hat
  refine (bind_of_eq (skipWhile_within hs _ hcursor (Nat.le_trans h₂ (by omega))) _).trans ?_
  refine (bind_of_eq (a := ⟨head, h₂⟩) ?_ _).trans ?_
  · split at hhead
    · next helse =>
      obtain ⟨⟨nested, ⟨nestedEnd, (h₃ : cursor ≤ nestedEnd)⟩⟩, hnested, hhead⟩ :=
        exists_of_bind hhead
      refine (if_pos helse).trans ?_
      dsimp only at hhead
      split at hhead
      · next hif =>
        obtain ⟨⟨m, (h₄ : nestedEnd ≤ m)⟩, hm, hhead⟩ := exists_of_bind hhead
        obtain rfl : m = head := congrArg Subtype.val (Except.ok.inj hhead)
        refine (bind_of_eq (wordAt_short hs _ hnested (Nat.le_trans h₄ (by omega))) _).trans ?_
        refine (if_pos hif).trans ?_
        exact bind_of_eq (skipWhile_within hs _ hm (by dsimp only; omega)) _
      · next hif =>
        obtain rfl : cursor = head := congrArg Subtype.val (Except.ok.inj hhead)
        obtain ⟨b, hb, hstarts⟩ := hat helse
        refine (bind_of_eq (wordAt_of_not_starts hb hstarts) _).trans ?_
        exact if_neg (by decide)
    · next helse => exact (if_neg helse).trans hhead
  · refine (bind_of_eq (isAt_within hs _ hopens fun h => Nat.lt_of_lt_of_le (hlt h) hle) _).trans ?_
    cases opens with
    | true =>
      obtain ⟨⟨close, h₃, h₄⟩, hclose, h⟩ := exists_of_bind h
      obtain ⟨⟨m, (h₅ : close + 1 ≤ m)⟩, hm, h⟩ := exists_of_bind h
      obtain rfl := Except.ok.inj h
      have hle : m ≤ short := hle
      refine (bind_of_eq (closing_within hs hq _ hclose (by dsimp only; omega)) _).trans ?_
      exact bind_of_eq (skipWhile_within hs _ hm hle) _
    | false => exact h

/-- No quote stands before what follows the head of a clause. -/
theorem clauseHead_unquoted {clause : String} (h : Unquoted src i) :
    Answers (clauseHead src clause i stop) fun n => Unquoted src n.1 := by
  refine .bind (skipBlanks_unquoted h) ?_
  rintro ⟨cursor, h₁⟩ hcursor
  refine .bind (p := fun n => Unquoted src n.1) ?_ ?_
  · split
    · refine .bind (wordAt_unquoted hcursor) ?_
      rintro ⟨nested, nestedEnd, h₂⟩ hnested
      dsimp only at hnested ⊢
      split
      · refine .bind (skipBlanks_unquoted hnested) ?_
        rintro ⟨n, h₃⟩ hn
        exact .pure hn
      · exact .pure hcursor
    · exact .pure hcursor
  · rintro ⟨head, h₂⟩ hhead
    refine .bind .any fun opens _ => ?_
    split
    · refine .bind closing_unquoted ?_
      rintro ⟨close, h₃, h₄⟩ hclose
      refine .bind (skipBlanks_unquoted hclose) ?_
      rintro ⟨n, h₅⟩ hn
      exact .pure hn
    · exact .pure hhead

/-- No quote stands before what follows the clauses of a statement. -/
theorem clauses_unquoted {keyword : String} {low : Nat} {hlow : low ≤ i} (h : Unquoted src i) :
    Answers (clauses src keyword low stop i hlow) fun r => Unquoted src r.2.1 := by
  induction hn : stop - i using Nat.strongRecOn generalizing i with
  | ind n ih =>
    rw [clauses]
    refine .bind (skipBlanks_unquoted h) ?_
    rintro ⟨start, h₁⟩ hstart
    refine .bind (wordAt_unquoted hstart) ?_
    rintro ⟨clause, clauseEnd, h₂⟩ hclause
    dsimp only at hclause ⊢
    split
    · refine .bind (clauseHead_unquoted hclause) ?_
      rintro ⟨cursor, h₃⟩ hcursor
      dsimp only at hcursor ⊢
      split
      · refine .bind isAt_eq fun semicolon hsemicolon => ?_
        split
        · next hat => exact .pure (unquoted_succ (hsemicolon hat) (by decide))
        · exact .pure hcursor
      · refine .bind .any fun opens _ => ?_
        split
        · refine .bind closing_unquoted ?_
          rintro ⟨close, h₄, h₅⟩ hclose
          refine .bind (ih _ (by omega) hclose rfl) ?_
          rintro ⟨rest, m, h₆⟩ hrest
          exact .pure hrest
        · exact .pure h
    · exact .pure h

theorem skipWhile_end {p : UInt8 → Bool} : skipWhile p src i i = .ok (.here i) := by
  rw [skipWhile, if_neg (Nat.lt_irrefl i)]

theorem wordAt_end : wordAt src i i = .ok ("", .here i) :=
  bind_of_eq (wordStartsAt_end (Nat.le_refl i)) _

/-- No clause begins with nothing. -/
theorem continuations_empty (keyword : String) : "" ∉ continuations keyword := by
  unfold continuations
  split
  · decide
  · split
    · decide
    · split <;> decide

/-- At the end of a range there are no clauses. -/
theorem clauses_end {keyword : String} {low : Nat} (hlow : low ≤ i) :
    clauses src keyword low i i hlow = .ok ([], .here i) := by
  rw [clauses, skipBlanks, bind_of_eq skipWhile_end]
  refine (bind_of_eq wordAt_end _).trans ?_
  exact if_neg (by simpa using continuations_empty keyword)

/-- **The clauses in a range that ends with them** are read as they were. -/
theorem clauses_short {keyword : String} {low : Nat} {hlow : low ≤ i} (hs : short ≤ stop)
    (hq : Unquoted src short) :
    Answers (clauses src keyword low stop i hlow) fun r => r.2.1 = short →
      ∃ r', clauses src keyword low short i hlow = .ok r' ∧
        r'.1.map (·.1) = r.1.map (·.1) ∧ r'.2 = r.2 := by
  induction hn : stop - i using Nat.strongRecOn generalizing i with
  | ind n ih =>
    -- where no clause is read the range is at its end
    have hterminal : i = short → ∃ r', clauses src keyword low short i hlow = .ok r' ∧
        r'.1.map (·.1) = ([] : List Range) ∧ r'.2 = .here i := by
      rintro rfl
      exact ⟨_, clauses_end hlow, rfl, rfl⟩
    rw [clauses]
    refine .bind (skipWhile_within hs) ?_
    rintro ⟨start, (h₁ : i ≤ start)⟩ hstart
    refine .bind (wordAt_short hs) ?_
    rintro ⟨clause, ⟨clauseEnd, (h₂ : start ≤ clauseEnd)⟩⟩ hclause
    dsimp only at hstart hclause ⊢
    split
    · next hin =>
      refine .bind .self ?_
      rintro ⟨cursor, (h₃ : clauseEnd ≤ cursor)⟩ hcursor
      dsimp only
      split
      · next hdo =>
        -- after `do` the clause is `while`
        have hwhile : clause = "while" := by
          rw [hdo] at hin
          simpa [continuations] using hin
        refine .bind (isAt_within hs) fun semicolon hsemicolon => ?_
        have hread : ∀ n : AtLeast i, (semicolon = true → cursor < short) → cursor ≤ short →
            (if semicolon = true then pure ([], ⟨cursor + 1, by omega⟩)
              else pure ([], ⟨cursor, by omega⟩) : Scan (List (Body low short) × AtLeast i))
                = .ok ([], n) → clauses src keyword low short i hlow = .ok ([], n) := by
          intro n hlt hle hn
          rw [clauses]
          refine (bind_of_eq (hstart (by omega)) _).trans ?_
          refine (bind_of_eq (hclause (by omega)) _).trans ?_
          refine (if_pos hin).trans ?_
          refine (bind_of_eq (clauseHead_short hs hq hcursor hle fun helse => ?_) _).trans ?_
          · rw [hwhile] at helse
            exact absurd helse (by decide)
          refine (if_pos hdo).trans ?_
          exact (bind_of_eq (hsemicolon hlt) _).trans hn
        split
        · next hat =>
          refine .pure fun (heq : cursor + 1 = short) => ⟨_, hread _ ?_ ?_ (if_pos hat), rfl, rfl⟩
          · omega
          · omega
        · next hat =>
          refine .pure fun (heq : cursor = short) => ⟨_, hread _ ?_ ?_ (if_neg hat), rfl, rfl⟩
          · exact fun h => absurd h hat
          · omega
      · next hdo =>
        refine .bind (.and isAt_eq (isAt_within hs)) ?_
        rintro opens ⟨hbrace, hopens⟩
        split
        · next hopen =>
          refine .bind (closing_within hs hq) ?_
          -- a body: what is behind it is read as it was
          rintro ⟨close, h₄, h₅⟩ hclose
          refine .bind (ih _ (by omega) rfl) ?_
          rintro ⟨rest, ⟨m, (h₆ : close + 1 ≤ m)⟩⟩ hrest
          refine .pure fun (heq : m = short) => ?_
          obtain ⟨⟨rest', m'⟩, hrest', hmap, rfl⟩ := hrest heq
          refine ⟨(⟨⟨cursor + 1, close⟩, by simp only; omega⟩ :: rest', ⟨m, by omega⟩), ?_,
            congrArg (_ :: ·) hmap, rfl⟩
          rw [clauses]
          refine (bind_of_eq (hstart (by omega)) _).trans ?_
          refine (bind_of_eq (hclause (by omega)) _).trans ?_
          refine (if_pos hin).trans ?_
          refine (bind_of_eq (clauseHead_short hs hq hcursor (by dsimp only; omega) fun _ =>
            hbrace hopen) _).trans ?_
          refine (if_neg hdo).trans ?_
          refine (bind_of_eq (hopens fun _ => by omega) _).trans ?_
          refine (if_pos hopen).trans ?_
          refine (bind_of_eq (hclose (by dsimp only; omega)) _).trans ?_
          exact bind_of_eq hrest' _
        · exact .pure hterminal
    · exact .pure hterminal

/-! ## Whole control statements -/

/-- **Two readings of one control statement**, in ranges of different length. -/
structure ControlHead.Alike {low stop stop' : Nat} (a : ControlHead low stop)
    (b : ControlHead low stop') : Prop where
  construct_eq : a.construct = b.construct
  bodies_eq : a.bodies.map (·.1) = b.bodies.map (·.1)
  finish_eq : a.finish = b.finish

/-- **A control statement ends behind a bracket** or a blank, and so behind no quote. -/
theorem readControl_unquoted {keyword : String} {hm : mark < i} :
    Answers (readControl src mark keyword i stop hm)
      (∀ head ∈ ·, Unquoted src head.finish.1) := by
  refine .bind .any fun opens _ => ?_
  split
  · refine .bind .any fun condition _ => ?_
    split
    · exact .pure fun _ h => absurd h (Option.not_mem_none _)
    · refine .bind .any fun brace _ => ?_
      split
      · refine .bind closing_unquoted ?_
        rintro ⟨close, h₂, h₃⟩ hclose
        refine .bind (clauses_unquoted hclose) ?_
        rintro ⟨rest, n, h₄⟩ hrest
        refine .pure ?_
        rintro head ⟨⟩
        exact hrest
      · exact .pure fun _ h => absurd h (Option.not_mem_none _)
  · exact .pure fun _ h => absurd h (Option.not_mem_none _)

/-- **A control statement in a range that ends with it** is read as it was. -/
theorem readControl_short {keyword : String} {hm : mark < i} (hs : short ≤ stop)
    (hq : Unquoted src short) :
    Answers (readControl src mark keyword i stop hm) fun o => ∀ head ∈ o,
      head.finish.1 = short → i ≤ short ∧ ∃ head', head'.Alike head ∧
        readControl src mark keyword i short hm = .ok (some head') := by
  refine .bind .self fun opens hopens => ?_
  split
  · next hopen =>
    subst hopen
    refine .bind (controlCondition?_short hs hq) ?_
    rintro (_ | ⟨construct, ⟨cursor, h₁⟩⟩) hcondition
    · exact .pure fun _ h => absurd h (Option.not_mem_none _)
    · refine .bind (isAt_within hs) fun brace hbrace => ?_
      split
      · next hat =>
        refine .bind (closing_within hs hq) ?_
        rintro ⟨close, h₂, h₃⟩ hclose
        refine .bind (clauses_short hs hq) ?_
        rintro ⟨rest, ⟨n, (h₄ : close + 1 ≤ n)⟩⟩ hrest
        refine .pure ?_
        rintro head ⟨⟩ (heq : n = short)
        obtain ⟨⟨rest', n'⟩, hrest', hmap, rfl⟩ := hrest heq
        have hi : i ≤ short := by omega
        have hcursor : cursor < short := by omega
        have hcloses : close < short := by omega
        refine ⟨hi, ⟨construct, ⟨⟨cursor + 1, close⟩, by simp only; omega⟩ :: rest',
          ⟨n, by omega⟩⟩, ⟨rfl, congrArg (_ :: ·) hmap, rfl⟩, ?_⟩
        refine (bind_of_eq (opensControl_short hs hi hopens) _).trans ?_
        refine (if_pos rfl).trans ?_
        refine (bind_of_eq (hcondition _ rfl hcursor) _).trans ?_
        refine (bind_of_eq (hbrace fun _ => hcursor) _).trans ?_
        refine (if_pos hat).trans ?_
        refine (bind_of_eq (hclose hcloses) _).trans ?_
        exact bind_of_eq hrest' _
      · exact .pure fun _ h => absurd h (Option.not_mem_none _)
  · exact .pure fun _ h => absurd h (Option.not_mem_none _)

/-! ## No control statement -/

/-- **There is no control statement** exactly if there is no condition, or no brace behind it. -/
theorem readControl_eq_none_iff {keyword : String} {hm : mark < i}
    {condition : Option (Construct × AtLeast i)}
    (hopens : opensControl src keyword i stop = .ok true)
    (hcondition : controlCondition? src keyword i stop = .ok condition) :
    readControl src mark keyword i stop hm = .ok none
      ↔ ∀ r ∈ condition, isAt src 0x7B r.2.1 stop = .ok false := by
  rw [readControl, bind_of_eq hopens, if_pos rfl, bind_of_eq hcondition]
  cases condition with
  | none => exact iff_of_true rfl fun r hr => absurd hr (Option.not_mem_none r)
  | some r =>
    obtain ⟨construct, cursor, h₁⟩ := r
    have hmem : (∀ r ∈ some (construct, (⟨cursor, h₁⟩ : AtLeast i)),
        isAt src 0x7B r.2.1 stop = .ok false) ↔ isAt src 0x7B cursor stop = .ok false :=
      ⟨fun h => h _ rfl, fun h r hr => by cases hr; exact h⟩
    rw [hmem]
    dsimp only
    cases hbrace : isAt src 0x7B cursor stop with
    | error e => exact iff_of_false nofun nofun
    | ok opens =>
      cases opens with
      | false => exact iff_of_true rfl rfl
      | true =>
        refine iff_of_false (fun h => ?_) nofun
        obtain ⟨_, ⟨⟩, h⟩ := exists_of_bind h
        obtain ⟨⟨close, h₂, h₃⟩, -, h⟩ := exists_of_bind h
        obtain ⟨⟨rest, n, h₄⟩, -, h⟩ := exists_of_bind h
        cases h

/-- There is no condition, or an empty one, where nothing follows that belongs to one. -/
theorem controlCondition?_bare {keyword : String}
    (hblank : skipBlanks src i stop = .ok (.here i))
    (hword : wordAt src i stop = .ok ("", .here i))
    (hparen : keyword ≠ "section" → isAt src 0x28 i stop = .ok false) :
    ∃ o, controlCondition? src keyword i stop = .ok o ∧ ∀ r ∈ o, r.2 = .here i := by
  by_cases hsection : keyword = "section"
  · refine ⟨some (.sectionBlock none, .here i), ?_, fun r hr => by cases hr; rfl⟩
    refine (bind_of_eq hblank _).trans ?_
    refine (if_pos hsection).trans ?_
    refine (bind_of_eq hword _).trans ?_
    exact bind_of_eq hblank _
  · by_cases hbare : keyword = "try" ∨ keyword = "do"
    · refine ⟨some (.control keyword none, .here i), ?_, fun r hr => by cases hr; rfl⟩
      refine (bind_of_eq hblank _).trans ?_
      refine (if_neg hsection).trans ?_
      refine (bind_of_eq (hparen hsection) _).trans ?_
      exact (if_neg (by decide)).trans (if_pos hbare)
    · refine ⟨none, ?_, fun r hr => absurd hr (Option.not_mem_none r)⟩
      refine (bind_of_eq hblank _).trans ?_
      refine (if_neg hsection).trans ?_
      refine (bind_of_eq (hparen hsection) _).trans ?_
      exact (if_neg (by decide)).trans (if_neg hbare)

/-- With parentheses there is a condition, which ends behind the blanks after them. -/
theorem controlCondition?_paren {keyword : String} (hsection : keyword ≠ "section")
    (hblank : skipBlanks src i stop = .ok (.here i)) (hparen : isAt src 0x28 i stop = .ok true)
    {close : { n : Nat // i < n ∧ n < stop }} (hclose : closing src i stop = .ok close) :
    ∃ construct, controlCondition? src keyword i stop = (do
      let n ← skipBlanks src (close.1 + 1) stop
      return some (construct, n.widen (Nat.le_succ_of_le (Nat.le_of_lt close.2.1)))) := by
  obtain ⟨close, h₁, h₂⟩ := close
  refine ⟨.control keyword (some (Text.trim (textOf src (i + 1) close))), ?_⟩
  refine (bind_of_eq hblank _).trans ?_
  refine (if_neg hsection).trans ?_
  refine (bind_of_eq hparen _).trans ?_
  refine (if_pos rfl).trans ?_
  exact bind_of_eq hclose _

/-- **What an implicit expression goes on with** if it goes on: a dot, a question mark or a bracket,
and the bracket is closed inside the expression. -/
theorem implicitEnd_starts : Answers (implicitEnd src i stop) fun n => n.1 = i ∨
    ∃ b ∈ [0x2E, 0x3F, 0x28, 0x5B], src[i]? = some b ∧
      (b = 0x28 → ∃ close, closing src i stop = .ok close ∧ close.1 < n.1) := by
  rw [implicitEnd]
  split
  · refine .bind byteAt_eq fun b hb => ?_
    refine .bind .any fun following _ => ?_
    split
    · next hdot =>
      obtain rfl : b = 0x2E := by simpa using (Bool.and_eq_true_iff.mp hdot).1
      exact Answers.any.mono fun _ _ => .inr ⟨_, by decide, hb, fun h => absurd h (by decide)⟩
    · refine .bind (p := fun starts => starts = true → b = 0x3F) ?_ fun starts hstarts => ?_
      · split
        · next hoptional =>
          exact Answers.any.mono fun _ _ _ => by
            simpa using (Bool.and_eq_true_iff.mp hoptional).1
        · exact .pure fun h => absurd h Bool.false_ne_true
      · split
        · next hword =>
          obtain rfl := hstarts hword
          exact Answers.any.mono fun _ _ => .inr ⟨_, by decide, hb, fun h => absurd h (by decide)⟩
        · split
          · next hopens =>
            have hmem : b ∈ [0x2E, 0x3F, 0x28, 0x5B] := by
              rcases Bool.or_eq_true_iff.mp hopens with h | h
              · simp [beq_iff_eq.mp h]
              · simp [beq_iff_eq.mp h]
            refine .bind .self ?_
            rintro ⟨close, h₁, h₂⟩ hclose
            refine .bind .any ?_
            rintro ⟨n, (hn : close + 1 ≤ n)⟩ -
            exact .pure (.inr ⟨b, hmem, hb, fun _ => ⟨_, hclose, hn⟩⟩)
          · exact .pure (.inl rfl)
  · exact .ok (.inl rfl)

/-- **Where a word is an implicit expression** and opens no control statement, it opens none in the
range that ends with the expression. -/
theorem readControl_none_short {keyword : String} {hm : mark < i} (hs : short ≤ stop)
    (hq : Unquoted src short) (hkeyword : keyword ≠ "using")
    (h : readControl src mark keyword i stop hm = .ok none) {n : AtLeast i}
    (hn : implicitEnd src i stop = .ok n) (hend : n.1 = short) :
    readControl src mark keyword i short hm = .ok none := by
  cases hopens : controlKeywords.contains keyword with
  | false =>
    refine (bind_of_eq (opensControl_of_ne hkeyword) _).trans ?_
    rw [hopens]
    rfl
  | true =>
    have hopen : ∀ stop, opensControl src keyword i stop = .ok true := fun stop => by
      rw [opensControl_of_ne hkeyword, hopens]
    rcases implicitEnd_starts n hn with heq | ⟨b, hb, hat, hclose⟩
    -- the word is the whole expression
    · obtain rfl : i = short := heq ▸ hend
      have hnone : ∃ o, controlCondition? src keyword i i = .ok o ∧ ∀ r ∈ o, r.2 = .here i :=
        controlCondition?_bare skipWhile_end wordAt_end fun _ => isAt_end (Nat.le_refl i)
      obtain ⟨o, ho, hhere⟩ := hnone
      refine (readControl_eq_none_iff (hopen i) ho).mpr fun r hr => ?_
      rw [hhere r hr]
      exact isAt_end (Nat.le_refl i)
    · have hclass : Bytes.isBlank b = false ∧ Bytes.startsWord b = false ∧ b ≠ 0x7B := by
        simp only [List.mem_cons, List.not_mem_nil, or_false] at hb
        rcases hb with rfl | rfl | rfl | rfl <;> decide
      obtain ⟨hblank, hword, hbrace⟩ := hclass
      by_cases hparen : b = 0x28 ∧ keyword ≠ "section"
      -- a call: its parentheses would be the condition
      · obtain ⟨rfl, hsection⟩ := hparen
        obtain ⟨⟨close, h₁, h₂⟩, hcloses, (hlt : close < n.1)⟩ := hclose rfl
        have hclose' := closing_within hs hq _ hcloses (by dsimp only; omega)
        obtain ⟨construct, hcondition⟩ := controlCondition?_paren hsection
          (skipWhile_of_not hat hblank) (isAt_of_eq (by omega) hat) hcloses
        obtain ⟨construct', hcondition'⟩ := controlCondition?_paren hsection
          (skipWhile_of_not hat hblank) (isAt_of_eq (by omega) hat) hclose'
        obtain ⟨m, hm⟩ : ∃ m, skipBlanks src (close + 1) stop = .ok m := by
          obtain ⟨_, hopen', hrest⟩ := exists_of_bind h
          obtain rfl := Except.ok.inj (hopen'.symm.trans (hopen stop))
          rw [if_pos rfl] at hrest
          obtain ⟨o, ho, -⟩ := exists_of_bind hrest
          obtain ⟨m, hm, -⟩ := exists_of_bind (hcondition.symm.trans ho)
          exact ⟨m, hm⟩
        have hno : isAt src 0x7B m.1 stop = .ok false :=
          (readControl_eq_none_iff (hopen stop) (hcondition.trans (bind_of_eq hm _))).mp h _ rfl
        have hm' := skipWhile_short (by omega) hs m hm
        refine (readControl_eq_none_iff (hopen short)
          (hcondition'.trans (bind_of_eq hm' _))).mpr ?_
        rintro r ⟨⟩
        exact isAt_min hs hno
      -- no condition, and no body either
      · have hnone : ∃ o, controlCondition? src keyword i short = .ok o ∧ ∀ r ∈ o, r.2 = .here i :=
          controlCondition?_bare (skipWhile_of_not hat hblank) (wordAt_of_not_starts hat hword)
            fun hsection => isAt_of_ne hat fun heq => hparen ⟨heq, hsection⟩
        obtain ⟨o, ho, hhere⟩ := hnone
        refine (readControl_eq_none_iff (hopen short) ho).mpr fun r hr => ?_
        rw [hhere r hr]
        exact isAt_of_ne hat hbrace

/-! ## Constructs -/

/-- What is done for each of several is done for what each shows. -/
theorem mapM_of_map_eq {ε α β γ δ : Type} {g : α → γ} {h : β → γ} {l : List α} {l' : List β}
    (heq : l.map g = l'.map h) (f : γ → Except ε δ) :
    (l.mapM fun a => f (g a)) = l'.mapM fun b => f (h b) := by
  induction l generalizing l' with
  | nil =>
    obtain rfl := List.map_eq_nil_iff.mp heq.symm
    rfl
  | cons a l ih =>
    obtain ⟨b, l', rfl, hb, hl⟩ := List.map_eq_cons_iff.mp heq.symm
    rw [List.mapM_cons, List.mapM_cons, ih hl.symm, hb]

/-- Whether a construct is a directive. -/
def Segment.IsDirective (s : Segment) : Prop := ∃ name value, s.construct = .directive name value

/-- A block of members ends behind its bracket, and so behind no quote. -/
theorem readMembers_unquoted {word : String} {hi : mark < i} :
    Answers (readMembers src mark word i stop hi) (∀ r ∈ ·, Unquoted src r.2.1) := by
  rw [readMembers]
  split
  · refine .bind .any ?_
    rintro ⟨brace, h₁⟩ -
    refine .bind .any fun opens _ => ?_
    split
    · refine .bind closing_unquoted ?_
      rintro ⟨close, h₂, h₃⟩ hclose
      refine .pure ?_
      rintro r ⟨⟩
      exact hclose
    · exact .pure fun _ h => absurd h (Option.not_mem_none _)
  · exact .pure fun _ h => absurd h (Option.not_mem_none _)

/-- What is read as a directive is one. -/
theorem readDirective_isDirective {name : String} {hi : mark < i} {hs : mark < stop} :
    Answers (readDirective src mark name i stop hi hs) (∀ s ∈ ·.1, s.IsDirective) := by
  refine .bind .any fun valueEnd _ => .pure ?_
  rintro s ⟨⟩
  exact ⟨_, _, rfl⟩

/-- **An implicit expression ends behind a word or a bracket**, and so behind no quote. -/
theorem readImplicit_unquoted {word : String} {hi : mark < i} (h : Unquoted src i) :
    Answers (readImplicit src mark word i stop hi) fun r => Unquoted src r.2.1 := by
  refine .bind (p := fun n => Unquoted src n.1) ?_ ?_
  · split
    · refine .bind (skipBlanks_unquoted h) ?_
      rintro ⟨operand, h₁⟩ hoperand
      refine .bind .any fun starts _ => ?_
      split
      · refine .bind (identifierEnd_unquoted hoperand) ?_
        rintro ⟨n, h₂⟩ hn
        exact .pure hn
      · exact .pure h
    · exact .pure h
  · rintro ⟨i, hi⟩ hend
    refine .bind .any fun equals _ => ?_
    refine .bind .any fun minus _ => ?_
    refine .bind .any fun colon _ => ?_
    split
    · exact .pure hend
    · refine .bind (implicitEnd_unquoted hend) ?_
      rintro ⟨n, hn⟩ hunquoted
      exact .pure hunquoted

/-- **No quote stands right before the end of a construct** other than a directive. -/
theorem readTransition_unquoted : Answers (readTransition src mark stop) fun r =>
    ∀ s ∈ r.1, ¬ s.IsDirective → Unquoted src r.2.1 := by
  rw [readTransition]
  refine .bind .any fun embedded _ => ?_
  split
  · exact .pure fun _ h => absurd h (Option.not_mem_none _)
  · split
    · refine .bind .any fun b _ => ?_
      split
      · exact .pure fun _ h => absurd h (Option.not_mem_none _)
      · split
        · split
          · next close hclose =>
            refine .pure fun s _ _ => ?_
            have hlast : src[close + 1]? = some 0x40 := by
              have hhas := (Bytes.find_eq_some_iff.mp hclose).1.2.2
              simp only [Bytes.hasAt, Bool.and_true, Bool.and_eq_true, beq_iff_eq] at hhas
              exact hhas.2
            exact unquoted_succ hlast (by decide)
          · exact .throw
        · split
          · refine .bind closing_unquoted ?_
            rintro ⟨close, h₁, h₂⟩ hclose
            exact .bind .any fun markup _ => .pure fun s _ _ => hclose
          · split
            · refine .bind closing_unquoted ?_
              rintro ⟨close, h₁, h₂⟩ hclose
              exact .pure fun s _ _ => hclose
            · refine .bind wordAt_last ?_
              rintro ⟨word, wordEnd, hw⟩ hword
              dsimp only at hword ⊢
              split
              · exact .pure fun _ h => absurd h (Option.not_mem_none _)
              · next hne =>
                refine .bind readMembers_unquoted fun members hmembers => ?_
                split
                · exact .pure fun s _ _ => hmembers _ rfl
                · refine .bind readControl_unquoted fun head hhead => ?_
                  split
                  · exact .bind .any fun runs _ => .pure fun s _ _ => hhead _ rfl
                  · split
                    · exact readDirective_isDirective.mono fun r hr s hs hno =>
                        absurd (hr s hs) hno
                    · exact (readImplicit_unquoted (hword hne).2).mono fun r hr s _ _ => hr
    · exact .pure fun _ h => absurd h (Option.not_mem_none _)

/-- The end of an expression's text is the end of the expression. -/
theorem readImplicit_end {word : String} {hi : mark < i} (hword : word ≠ "await") :
    Answers (readImplicit src mark word i stop hi) fun r => r.1.isSome →
      ∃ n, implicitEnd src i stop = .ok n ∧ n.1 = r.2.1 := by
  rw [readImplicit, if_neg hword]
  refine .bind (p := (· = ⟨i, hi⟩)) (.pure rfl) ?_
  rintro _ rfl
  refine .bind .any fun equals _ => ?_
  refine .bind .any fun minus _ => ?_
  refine .bind .any fun colon _ => ?_
  split
  · exact .pure fun h => absurd h Bool.false_ne_true
  · refine .bind .self ?_
    rintro ⟨n, hn⟩ hend
    exact .pure fun _ => ⟨_, hend, rfl⟩

/-- **What is read when the word behind an `@` is known**: members, a control statement, a directive
or an expression. -/
def readWord (src : Bytes) (mark : Nat) (word : String) (i stop : Nat) (hi : mark < i)
    (hs : mark < stop) : Scan (Option Segment × AtLeast (mark + 1)) := do
  match ← readMembers src mark word i stop hi with
  | some (segment, n) => return (some segment, n)
  | none =>
    match ← readControl src mark word i stop hi with
    | some ⟨construct, bodies, finish⟩ =>
      let runs ← bodies.mapM fun ⟨r, _⟩ =>
        if word = "section" then return [r] else splitFrom src r.start r.stop true
      let segment : Segment :=
        { Segment.simple construct mark finish with
          bodies := bodies.map fun body => body.1
          markup := runs.flatten }
      return (some segment, finish)
    | none =>
      if directives.contains word then readDirective src mark word i stop hi hs
      else readImplicit src mark word i stop hi

/-- **What begins with a word** and is no directive is read the same in a shorter range that ends
with it. -/
theorem readWord_short {word : String} {hi : mark < i} {hlt : mark < stop} (hs : short ≤ stop)
    (hq : Unquoted src short) :
    Answers (readWord src mark word i stop hi hlt) fun r => ∀ s ∈ r.1, ¬ s.IsDirective →
      r.2.1 = short → ∃ hle : i ≤ short,
        readWord src mark word i short hi (Nat.lt_of_lt_of_le hi hle) = .ok r := by
  refine .bind .self fun members hmembers => ?_
  cases members with
  | some r =>
    -- a block of members
    obtain ⟨segment, n⟩ := r
    refine .pure fun s _ _ (heq : n.1 = short) => ?_
    obtain ⟨hle, hshort⟩ := readMembers_short hs hq _ hmembers
      (fun h => absurd h (Option.some_ne_none _)) fun r hr => by cases hr; exact heq
    exact ⟨hle, bind_of_eq hshort _⟩
  | none =>
    have hnone := fun hle => readMembers_short hs hq _ hmembers (fun _ => hle)
      fun _ h => absurd h (Option.not_mem_none _)
    refine .bind .self fun head hhead => ?_
    cases head with
    | some head =>
      -- a control statement
      obtain ⟨construct, bodies, finish⟩ := head
      refine .bind .self fun runs hruns => ?_
      refine .pure fun s _ _ (heq : finish.1 = short) => ?_
      obtain ⟨hle, ⟨construct', bodies', finish'⟩, ⟨rfl, hbodies, rfl⟩, hshort⟩ :=
        readControl_short hs hq _ hhead _ rfl heq
      refine ⟨hle, (bind_of_eq (hnone hle).2 _).trans ?_⟩
      refine (bind_of_eq hshort _).trans ?_
      refine (bind_of_eq ((mapM_of_map_eq hbodies fun r => if word = "section" then
        return [r] else splitFrom src r.start r.stop true).trans hruns) _).trans ?_
      exact congrArg (fun bodies => Except.ok (some { Segment.simple construct' mark finish' with
        bodies, markup := runs.flatten }, finish')) hbodies
    | none =>
      dsimp only
      split
      -- a directive takes the rest of its line
      · exact readDirective_isDirective.mono fun r hr s hs hno => absurd (hr s hs) hno
      · next hdirective =>
        -- an expression: in the shorter range the word opens neither members nor a statement
        intro r hr s hsome _ heq
        have hsome : r.1.isSome := by
          rw [Option.mem_def.mp hsome]
          rfl
        obtain ⟨hle, hshort⟩ := readImplicit_short hs hq r hr hsome heq
        have husing : word ≠ "using" := by
          rintro rfl
          exact hdirective (by decide)
        have hcontrol : readControl src mark word i short hi = .ok none := by
          by_cases hawait : word = "await"
          · refine (bind_of_eq (opensControl_of_ne husing) _).trans ?_
            rw [hawait]
            rfl
          · obtain ⟨n, hn, hend⟩ := readImplicit_end hawait r hr hsome
            exact readControl_none_short hs hq husing hhead hn (hend.trans heq)
        refine ⟨hle, (bind_of_eq (hnone hle).2 _).trans ?_⟩
        refine (bind_of_eq hcontrol _).trans ?_
        exact (if_neg hdirective).trans hshort

/-- **A construct in a range that ends with it** is read as it was. -/
theorem readTransition_short (hs : short ≤ stop) (hq : Unquoted src short) :
    Answers (readTransition src mark stop) fun r => ∀ s ∈ r.1, ¬ s.IsDirective →
      r.2.1 = short → readTransition src mark short = .ok r := by
  rw [readTransition]
  refine .bind .self fun embedded hembedded => ?_
  split
  · exact .pure fun _ h => absurd h (Option.not_mem_none _)
  · next hfree =>
    split
    · next hnext =>
      refine .bind .self fun b hb => ?_
      split
      · exact .pure fun _ h => absurd h (Option.not_mem_none _)
      · next hdouble =>
        split
        -- a comment
        · next hcomment =>
          split
          · next close hclose =>
            refine .pure fun s _ _ (heq : close + 2 = short) => ?_
            have hfind := find_of_le hs hclose (Nat.le_of_eq heq)
            have hbehind := (Bytes.find_bounds hclose).1
            rw [readTransition, bind_of_eq hembedded, if_neg hfree, dif_pos (by omega),
              bind_of_eq hb, if_neg hdouble, if_pos hcomment]
            split
            · next close' hclose' =>
              obtain rfl : close = close' := Option.some.inj (hfind.symm.trans hclose')
              rfl
            · next hnone => exact absurd (hfind.symm.trans hnone) (Option.some_ne_none _)
          · exact .throw
        · next hcomment =>
          split
          -- a block
          · next hblock =>
            refine .bind (closing_within hs hq) ?_
            rintro ⟨close, h₁, h₂⟩ hclose
            refine .bind .self fun markup hmarkup => ?_
            refine .pure fun s _ _ (heq : close + 1 = short) => ?_
            rw [readTransition, bind_of_eq hembedded, if_neg hfree, dif_pos (by omega),
              bind_of_eq hb, if_neg hdouble, if_neg hcomment, if_pos hblock]
            refine (bind_of_eq (hclose (by dsimp only; omega)) _).trans ?_
            exact bind_of_eq hmarkup _
          · next hblock =>
            split
            -- an expression in parentheses
            · next hexplicit =>
              refine .bind (closing_within hs hq) ?_
              rintro ⟨close, h₁, h₂⟩ hclose
              refine .pure fun s _ _ (heq : close + 1 = short) => ?_
              rw [readTransition, bind_of_eq hembedded, if_neg hfree, dif_pos (by omega),
                bind_of_eq hb, if_neg hdouble, if_neg hcomment, if_neg hblock, if_pos hexplicit]
              exact bind_of_eq (hclose (by dsimp only; omega)) _
            -- a word
            · next hexplicit =>
              refine .bind (.and (wordAt_short hs) wordAt_last) ?_
              rintro ⟨word, ⟨wordEnd, (hw : mark + 1 ≤ wordEnd)⟩⟩ ⟨hword, hlast⟩
              dsimp only at hword hlast ⊢
              split
              · exact .pure fun _ h => absurd h (Option.not_mem_none _)
              · next hne =>
                have hlast := (hlast hne).1
                intro r hr s hsome hs' heq
                obtain ⟨hle, hshort⟩ := readWord_short hs hq r hr s hsome hs' heq
                rw [readTransition, bind_of_eq hembedded, if_neg hfree, dif_pos (by omega),
                  bind_of_eq hb, if_neg hdouble, if_neg hcomment, if_neg hblock,
                  if_neg hexplicit]
                refine (bind_of_eq (hword hle) _).trans ?_
                exact (if_neg hne).trans hshort
    · exact .pure fun _ h => absurd h (Option.not_mem_none _)

/-- **Reading a construct again**, in the range that ends with it, gives the same construct. -/
theorem readTransition_reread (h : mark < stop) {s : Segment} {next : AtLeast (mark + 1)}
    (hread : readTransition src mark stop = .ok (some s, next)) (hs : ¬ s.IsDirective) :
    readTransition src mark next.1 = .ok (some s, next) :=
  readTransition_short (readTransition_read h _ hread).2 (readTransition_unquoted _ hread s rfl hs)
    _ hread s rfl hs rfl

/-! ## Runs that are constructs -/

/-- What a run of markup in code is, if it begins with an `@` that no colon follows: what was read
there as a construct. -/
def RunRead (src : Bytes) (stop : Nat) (run : Range) : Prop :=
  src[run.start]? = some 0x40 → src[run.start + 1]? ≠ some 0x3A →
    run.start < stop ∧ ∃ s next, readTransition src run.start stop = .ok (some s, next) ∧
      next.1 = run.stop

/-- **Each run of markup that begins with a construct** is what was read of that construct. -/
theorem splitFrom_runs {statement : Bool} :
    Answers (splitFrom src i stop statement) (∀ run ∈ ·, RunRead src stop run) := by
  induction hn : stop - i using Nat.strongRecOn generalizing i statement with
  | ind n ih =>
    rw [splitFrom]
    split
    · next hlt =>
      have later : ∀ {m} {st : Bool}, i < m →
          Answers (splitFrom src m stop st) (∀ run ∈ ·, RunRead src stop run) := fun hm =>
        ih _ (by omega) rfl
      have found : ∀ {m} {st : Bool}, i < m → RunRead src stop ⟨i, m⟩ →
          Answers (do return ⟨i, m⟩ :: (← splitFrom src m stop st))
            (∀ run ∈ ·, RunRead src stop run) := fun hm hrun =>
        .bind (later hm) fun runs hruns => .pure (List.forall_mem_cons.mpr ⟨hrun, hruns⟩)
      refine .bind byteAt_eq fun b hb => ?_
      refine .bind byteAfter_eq fun following hfollowing => ?_
      split
      · exact later (Nat.lt_succ_self _)
      · split
        · exact later (pastOrStop _ _ _ _ (Nat.le_refl _) hlt).2
        · split
          · exact later (pastOrStop _ _ _ _ (Nat.le_succ _) hlt).2
          · split
            -- an element begins with another byte
            · next htag =>
              have htag : b = 0x3C := by
                simp only [Bool.and_eq_true, beq_iff_eq] at htag
                exact htag.1.2
              refine .bind .any ?_
              rintro ⟨m, hm⟩ -
              refine found (by omega) fun hat => ?_
              rw [htag] at hb
              exact absurd (Option.some.inj (hb.symm.trans hat)) (by decide)
            · split
              -- a line of markup goes on with a colon
              · next hline =>
                have hline : following = 0x3A := by
                  simp only [Bool.and_eq_true, beq_iff_eq] at hline
                  exact hline.2
                refine found (upTo _ _ _ _ (Nat.le_refl _) hlt).2 fun _ hcolon => ?_
                rw [hline] at hfollowing
                exact absurd (hfollowing (by decide)).2 hcolon
              -- a construct
              · refine .bind (p := fun r => ∀ s ∈ r.1, readTransition src i stop = .ok r) ?_ ?_
                · split
                  · exact fun r hr s _ => hr
                  · exact .pure fun _ h => absurd h (Option.not_mem_none _)
                · rintro ⟨segment, next, hnext⟩ hread
                  dsimp only at hread ⊢
                  split
                  · next hsome =>
                    obtain ⟨s, rfl⟩ := Option.isSome_iff_exists.mp hsome
                    exact found hnext fun _ _ => ⟨hlt, s, _, hread s rfl, rfl⟩
                  · refine .bind .any ?_
                    rintro ⟨m, hm⟩ -
                    exact later hm
    · exact .ok (by simp)

/-- **Scanning a construct by itself** yields that one construct, with what its runs hold. -/
theorem segments_reread (h : mark < stop) (hs : stop ≤ src.size) (hat : src[mark]? = some 0x40)
    {s : Segment} {next : AtLeast (mark + 1)}
    (hread : readTransition src mark stop = .ok (some s, next)) (hs' : ¬ s.IsDirective) :
    segments src mark next.1 = (do
      let children ← s.markup.mapM fun run => segments src run.start run.stop
      return [{ s with children := children.flatten }]) := by
  have hle := (readTransition_read h _ hread).2
  have hend : segments src next.1 next.1 = .ok [] := by
    rw [segments, if_neg (Nat.lt_irrefl _)]
  rw [segments_of_at next.2 (Nat.le_trans hle hs) hat, readTransition_reread h hread hs']
  show (s.markup.mapM fun run => segments src run.start run.stop) >>= _ = _
  rw [hend]
  rfl

/-- **Nested constructs are read twice alike.** -/
theorem splitCode_reread (hs : stop ≤ src.size) :
    (∀ mark s next, mark < stop → readTransition src mark stop = .ok (some s, next) →
      ¬ s.IsDirective → readTransition src mark next.1 = .ok (some s, next))
    ∧ ∀ start runs, splitCode src start stop = .ok runs → ∀ run ∈ runs,
      src[run.start]? = some 0x40 → src[run.start + 1]? ≠ some 0x3A →
      ∃ s next, readTransition src run.start stop = .ok (some s, next) ∧ next.1 = run.stop ∧
        (¬ s.IsDirective → segments src run.start run.stop = (do
          let children ← s.markup.mapM fun inner => segments src inner.start inner.stop
          return [{ s with children := children.flatten }])) := by
  refine ⟨fun mark s next h hread hs' => readTransition_reread h hread hs',
    fun start runs hruns run hrun hat hcolon => ?_⟩
  obtain ⟨hlt, s, next, hread, hend⟩ := splitFrom_runs _ hruns run hrun hat hcolon
  exact ⟨s, next, hread, hend, fun hs' => hend ▸ segments_reread hlt hs hat hread hs'⟩

/-- `@(b) c`. -/
def expressionSource : Bytes := #[0x40, 0x28, 0x62, 0x29, 0x20, 0x63]

/-- The expression of `@(b) c` is read in six bytes and again in its own four. -/
theorem splitCode_reread_expression : 6 ≤ expressionSource.size
    ∧ splitCode expressionSource 0 6 = .ok [⟨0, 4⟩]
    ∧ ∃ s next, readTransition expressionSource 0 6 = .ok (some s, next)
      ∧ s.construct = .explicitExpression "b" ∧ next.1 = 4
      ∧ readTransition expressionSource 0 next.1 = .ok (some s, next)
      ∧ segments expressionSource 0 4 = (do
        let children ← s.markup.mapM fun inner => segments expressionSource inner.start inner.stop
        return [{ s with children := children.flatten }]) := by
  have hsize : 6 ≤ expressionSource.size := by decide
  have hruns : splitCode expressionSource 0 6 = .ok [⟨0, 4⟩] := by decide +kernel
  have hfound : (readTransition expressionSource 0 6).toOption.any (fun r =>
      r.1.any fun s => s.construct == .explicitExpression "b") = true := by
    decide +kernel
  obtain ⟨hagain, hscan⟩ := splitCode_reread hsize
  obtain ⟨s, next, hread, hend, hscan⟩ := hscan 0 _ hruns ⟨0, 4⟩ (by decide) (by decide) (by decide)
  rw [hread] at hfound
  have hconstruct : s.construct = .explicitExpression "b" := beq_iff_eq.mp hfound
  have hs : ¬ s.IsDirective := by
    rintro ⟨name, value, hdirective⟩
    rw [hconstruct] at hdirective
    cases hdirective
  exact ⟨hsize, hruns, s, next, hread, hconstruct, hend, hagain 0 s next (by decide) hread hs,
    hscan hs⟩

/-- A block whose markup `<a>@(</a>` opens an expression that is never closed. -/
def unclosedSource : Bytes :=
  #[0x40, 0x7B, 0x3C, 0x61, 0x3E, 0x40, 0x28, 0x3C, 0x2F, 0x61, 0x3E, 0x7D]

/-- **A construct whose markup cannot be scanned**: the block is read, and it is a run of markup
where it stands in code, but scanning the run stops at the expression in it. -/
theorem segments_reread_unclosed : splitCode unclosedSource 0 12 = .ok [⟨0, 12⟩]
    ∧ segments unclosedSource 0 12 = .error (.unterminated .expression 6)
    ∧ ¬ ∀ (src : Bytes) (mark stop : Nat) (runs : List Range) (s : Segment)
      (next : AtLeast (mark + 1)), mark < stop → stop ≤ src.size →
      splitCode src mark stop = .ok runs → ⟨mark, next.1⟩ ∈ runs →
      readTransition src mark stop = .ok (some s, next) → ¬ s.IsDirective →
      ∃ t, segments src mark next.1 = .ok [t] := by
  have hruns : splitCode unclosedSource 0 12 = .ok [⟨0, 12⟩] := by decide +kernel
  have hfound : (readTransition unclosedSource 0 12).toOption.any (fun r =>
      r.2.1 == 12 && r.1.any fun s => s.construct == .codeBlock none) = true := by
    decide +kernel
  have hstops : segments unclosedSource 0 12 = .error (.unterminated .expression 6) := by
    have hmap : (segments unclosedSource 0 12).map List.length
        = .error (.unterminated .expression 6) := by
      decide +kernel
    cases hscan : segments unclosedSource 0 12 with
    | error e =>
      rw [hscan] at hmap
      exact congrArg Except.error (Except.error.inj hmap)
    | ok found =>
      rw [hscan] at hmap
      cases hmap
  refine ⟨hruns, hstops, fun hall => ?_⟩
  obtain ⟨⟨_ | s, next⟩, hread, hcheck⟩ := Answers.exists_of_any hfound
  · simp at hcheck
  · obtain ⟨hend, hconstruct⟩ : next.1 = 12 ∧ s.construct = .codeBlock none := by
      simpa using hcheck
    have hs : ¬ s.IsDirective := by
      rintro ⟨name, value, hdirective⟩
      rw [hconstruct] at hdirective
      cases hdirective
    obtain ⟨t, ht⟩ := hall unclosedSource 0 12 _ s next (by decide) (by decide) hruns
      (by rw [hend]; decide) hread hs
    rw [hend, hstops] at ht
    cases ht

end SyntaxForest.Template
