import SyntaxForest.Proofs.Template.Settling

/-!
# Doubled transitions

Two `@` stand for one that is text. The scanner takes them off in pairs from the left, so a
run of `@` of even length is text as a whole – unless a word ends right before it. There the
first `@` is passed by itself, as in an e-mail address, the pairs are formed one further on,
and the last `@` of the run stands alone. `scan_escaped` says that nothing else makes a
template of such runs hold a construct: it has none exactly if no run that follows a word ends
with an `@` that opens something.
-/

namespace SyntaxForest.Template

open Lexical Range

variable {src : Bytes} {i stop mark : Nat}

/-! ## Runs -/

/-- **A maximal run of `@`**, from `start` to before `stop`. -/
structure AtRun (src : Bytes) (start stop : Nat) : Prop where
  nonempty : start < stop
  all : ∀ j, j < stop → start ≤ j → src[j]? = some 0x40
  before : start = 0 ∨ src[start - 1]? ≠ some 0x40
  behind : src[stop]? ≠ some 0x40

/-- **Every run is of pairs.** -/
def InPairs (src : Bytes) : Prop := ∀ start stop, AtRun src start stop → 2 ∣ stop - start

/-- Whether a word ends right before an offset. -/
def FollowsWord (src : Bytes) (i : Nat) : Prop := 0 < i ∧ (src[i - 1]?).any Bytes.inWord = true

/-- Whether the `@` at an offset is read as text. -/
def OpensNothing (src : Bytes) (mark : Nat) : Prop :=
  ∃ next, readTransition src mark src.size = .ok (none, next)

theorem AtRun.stop_le {start stop : Nat} (h : AtRun src start stop) : stop ≤ src.size := by
  have := h.nonempty
  have hlast := h.all (stop - 1) (by omega) (by omega)
  have := (Array.getElem?_eq_some_iff.mp hlast).1
  omega

instance (start stop : Nat) : Decidable (AtRun src start stop) :=
  decidable_of_iff (start < stop ∧ (∀ j, j < stop → start ≤ j → src[j]? = some 0x40)
      ∧ (start = 0 ∨ src[start - 1]? ≠ some 0x40) ∧ src[stop]? ≠ some 0x40)
    ⟨fun ⟨h₁, h₂, h₃, h₄⟩ => ⟨h₁, h₂, h₃, h₄⟩, fun ⟨h₁, h₂, h₃, h₄⟩ => ⟨h₁, h₂, h₃, h₄⟩⟩

/-- Runs are in pairs if those inside the source are. -/
theorem inPairs_iff : InPairs src ↔ ∀ start, start < src.size → ∀ stop, stop < src.size + 1 →
    AtRun src start stop → 2 ∣ stop - start := by
  refine ⟨fun h start _ stop _ => h start stop, fun h start stop hrun => ?_⟩
  have hle := hrun.stop_le
  have hlt := hrun.nonempty
  exact h start (by omega) stop (by omega) hrun

instance (src : Bytes) : Decidable (InPairs src) := decidable_of_iff' _ inPairs_iff

instance (src : Bytes) (i : Nat) : Decidable (FollowsWord src i) :=
  inferInstanceAs (Decidable (_ ∧ _))

/-- Where a run begins, how far it reaches is determined. -/
theorem AtRun.stop_eq {start stop stop' : Nat} (h : AtRun src start stop)
    (h' : AtRun src start stop') : stop = stop' := by
  rcases Nat.lt_trichotomy stop stop' with hlt | heq | hlt
  · exact absurd (h'.all stop hlt (Nat.le_of_lt h.nonempty)) h.behind
  · exact heq
  · exact absurd (h.all stop' hlt (Nat.le_of_lt h'.nonempty)) h'.behind

/-- A run that begins no earlier than another is the same one, or stands behind it. -/
theorem AtRun.eq_or_le {start stop start' stop' : Nat} (h : AtRun src start stop)
    (h' : AtRun src start' stop') (hle : start ≤ start') : start' = start ∨ stop ≤ start' := by
  by_contra hin
  rw [not_or, Nat.not_le] at hin
  rcases h'.before with hzero | hbefore
  · omega
  · exact hbefore (h.all (start' - 1) (by omega) (by omega))

/-- A run begins at each `@` that follows none. -/
theorem exists_run (hat : src[i]? = some 0x40) (hbefore : i = 0 ∨ src[i - 1]? ≠ some 0x40) :
    ∃ stop, AtRun src i stop := by
  have hend : ∃ j, i ≤ j ∧ src[j]? ≠ some 0x40 := by
    refine ⟨src.size, Nat.le_of_lt (Array.getElem?_eq_some_iff.mp hat).1, ?_⟩
    rw [Array.getElem?_eq_none (Nat.le_refl _)]
    exact fun heq => nomatch heq
  classical
  obtain ⟨hle, hbehind⟩ := Nat.find_spec hend
  have hne : i ≠ Nat.find hend := fun heq => hbehind (heq ▸ hat)
  refine ⟨Nat.find hend, Nat.lt_of_le_of_ne hle hne, fun j hlt hj => ?_, hbefore, hbehind⟩
  by_contra hj'
  exact Nat.find_min hend hlt ⟨hj, hj'⟩

/-! ## What is passed over without a construct -/

theorem at_not_inWord : Bytes.inWord 0x40 = false := by decide

theorem at_not_isBlank : Bytes.isBlank 0x40 = false := by decide

/-- **An `@` that is text** is passed alone, or with the one that it is doubled by, or with a
word behind it: no other `@` is passed. -/
def Passes (src : Bytes) (mark : Nat) (r : Option Segment × AtLeast (mark + 1)) : Prop :=
  r.1 = none → ∀ j, mark + 1 < j → j < r.2.1 → src[j]? ≠ some 0x40

theorem Passes.found {s : Segment} {n : AtLeast (mark + 1)} : Passes src mark (some s, n) :=
  fun hnone => nomatch hnone

/-- No other `@` is passed where two bytes at most are. -/
theorem Passes.near {n : AtLeast (mark + 1)} (h : n.1 ≤ mark + 2) :
    Passes src mark (none, n) :=
  fun _ _ hj hlt => absurd (Nat.lt_of_lt_of_le hlt h) (Nat.not_lt.mpr hj)

/-- A word that is no expression is passed with the operand of `await`. -/
theorem readImplicit_passes {word : String} {hi : mark < i}
    (hword : ∀ j, mark + 1 ≤ j → j < i → src[j]? ≠ some 0x40) :
    Answers (readImplicit src mark word i stop hi) (Passes src mark) := by
  refine .bind (p := fun n => ∀ j, mark + 1 ≤ j → j < n.1 → src[j]? ≠ some 0x40) ?_ ?_
  · split
    · refine .bind (skipWhile_free at_not_isBlank) ?_
      rintro ⟨operand, h₁⟩ hblank
      refine .bind .any fun starts _ => ?_
      split
      · refine .bind (skipWhile_free at_not_inWord) ?_
        rintro ⟨n, h₂⟩ hoperand
        refine .pure fun j hj hlt => ?_
        rcases Nat.lt_or_ge j i with hji | hji
        · exact hword j hj hji
        · rcases Nat.lt_or_ge j operand with hjo | hjo
          · exact hblank j hji hjo
          · exact hoperand j hjo hlt
      · exact .pure hword
    · exact .pure hword
  · rintro ⟨n, hn⟩ hfree
    refine .bind .any fun equals _ => ?_
    refine .bind .any fun minus _ => ?_
    refine .bind .any fun colon _ => ?_
    split
    · exact .pure fun _ j hj hlt => hfree j (Nat.le_of_lt hj) hlt
    · exact .bind .any fun m _ => .pure .found

/-- **What stands at a transition** is a construct, or is passed without another `@` than the one
that doubles it. -/
theorem readTransition_passes : Answers (readTransition src mark stop) (Passes src mark) := by
  rw [readTransition]
  refine .bind .any fun embedded _ => ?_
  split
  · exact .pure (.near (Nat.le_succ _))
  · split
    · refine .bind .any fun b _ => ?_
      split
      · exact .pure (.near (Nat.le_refl _))
      · split
        · split
          · exact .pure .found
          · exact .throw
        · split
          · refine .bind .any ?_
            rintro ⟨close, h₁, h₂⟩ -
            exact .bind .any fun markup _ => .pure .found
          · split
            · refine .bind .any ?_
              rintro ⟨close, h₁, h₂⟩ -
              exact .pure .found
            · refine .bind (p := fun r => ∀ j, mark + 1 ≤ j → j < r.2.1 →
                src[j]? ≠ some 0x40) ?_ ?_
              · refine .bind .any fun starts _ => ?_
                split
                · exact .bind (skipWhile_free at_not_inWord) fun n hn => .pure hn
                · exact .pure fun j hj hlt => absurd hlt (Nat.not_lt.mpr hj)
              · rintro ⟨word, wordEnd, hw⟩ hfree
                dsimp only at hfree ⊢
                split
                · exact .pure (.near (Nat.le_succ _))
                · refine .bind .any fun members _ => ?_
                  split
                  · exact .pure .found
                  · refine .bind .any fun head _ => ?_
                    split
                    · exact .bind .any fun runs _ => .pure .found
                    · split
                      · exact .bind .any fun valueEnd _ => .pure .found
                      · exact readImplicit_passes hfree
    · exact .pure (.near (Nat.le_succ _))

/-! ## Scanning a run -/

/-- **An `@` that is text is passed**, and scanning goes on where it was passed. -/
theorem segments_of_none (hlt : i < stop) (hs : stop ≤ src.size) (hat : src[i]? = some 0x40)
    {next : AtLeast (i + 1)} (hread : readTransition src i stop = .ok (none, next)) :
    segments src i stop = segments src next.1 stop := by
  rw [segments_of_at hlt hs hat, hread]
  rfl

/-- **What holds no `@` is passed.** -/
theorem segments_of_free {a b : Nat} (hab : a ≤ b) (hb : b ≤ stop)
    (hfree : ∀ j, a ≤ j → j < b → src[j]? ≠ some 0x40) :
    segments src a stop = segments src b stop := by
  have hfind : src.find [0x40] a stop = src.find [0x40] b stop := by
    refine Option.ext fun i => ?_
    rw [Bytes.find_eq_some_iff, Bytes.find_eq_some_iff, Bytes.hasAt_singleton]
    refine ⟨fun h => ⟨⟨?_, h.1.2⟩, fun j hj => h.2 j (Nat.le_trans hab hj)⟩,
      fun h => ⟨⟨Nat.le_trans hab h.1.1, h.1.2⟩, fun j hj hji => ?_⟩⟩
    · exact Nat.not_lt.mp fun hlt => hfree i h.1.1 hlt h.1.2.2
    · rcases Nat.lt_or_ge j b with hjb | hjb
      · exact fun hat => hfree j hj hjb (Bytes.hasAt_singleton.mp hat)
      · exact h.2 j hjb hji
  rw [segments_eq, segments_eq, scanRound, scanRound, hfind]
  by_cases hlt : b < stop
  · rw [if_pos hlt, if_pos (by omega)]
  · have hnone : src.find [0x40] b stop = none := by
      refine Bytes.find_eq_none_iff.mpr fun j hj hle => absurd hle ?_
      show ¬ j + 1 ≤ min stop src.size
      omega
    rw [if_neg hlt, hnone, ite_self]

/-- Whether an `@` is embedded in a word is read off the byte before it. -/
theorem isEmbedded_ok (hs : i ≤ src.size) :
    ∃ embedded, isEmbedded src i = .ok embedded ∧ (embedded = true ↔ FollowsWord src i) := by
  unfold isEmbedded FollowsWord
  split
  · next hpos =>
    obtain ⟨b, hb⟩ : ∃ b, src[i - 1]? = some b :=
      ⟨_, Array.getElem?_eq_getElem (by omega)⟩
    refine ⟨Bytes.inWord b, ?_, ?_⟩
    · rw [byteAt, hb]
      rfl
    · rw [hb, Option.any_some]
      exact (and_iff_right hpos).symm
  · next hzero => exact ⟨false, rfl, iff_of_false Bool.false_ne_true fun h => hzero h.1⟩

/-- An `@` right behind a word is text. -/
theorem readTransition_embedded (hs : i ≤ src.size) (h : FollowsWord src i) :
    readTransition src i stop = .ok (none, .here (i + 1)) := by
  obtain ⟨embedded, hembedded, hiff⟩ := isEmbedded_ok hs
  rw [readTransition, hembedded, hiff.mpr h]
  rfl

/-- Two `@` that follow no word are text. -/
theorem readTransition_pair (hs : stop ≤ src.size) (hlt : i + 1 < stop) (h : ¬ FollowsWord src i)
    (hat : src[i + 1]? = some 0x40) :
    readTransition src i stop = .ok (none, ⟨i + 2, Nat.le_succ _⟩) := by
  have hi : i ≤ src.size := by omega
  obtain ⟨embedded, hembedded, hiff⟩ := isEmbedded_ok hi
  rw [readTransition, hembedded, eq_false_of_ne_true fun heq => h (hiff.mp heq)]
  show (if hs : i + 1 < stop then _ else _) = _
  rw [dif_pos hlt, byteAt, hat]
  rfl

/-- No word ends in an `@`. -/
theorem not_followsWord_succ (hat : src[i]? = some 0x40) : ¬ FollowsWord src (i + 1) := by
  rintro ⟨-, hany⟩
  rw [Nat.add_sub_cancel, hat, Option.any_some, at_not_inWord] at hany
  cases hany

/-- **Pairs are passed**, if they follow no word. -/
theorem segments_pairs (k : Nat) (hs : stop ≤ src.size) (hk : i + 2 * k ≤ stop)
    (h : ¬ FollowsWord src i) (hat : ∀ j, j < i + 2 * k → i ≤ j → src[j]? = some 0x40) :
    segments src i stop = segments src (i + 2 * k) stop := by
  induction k generalizing i with
  | zero => rfl
  | succ k ih =>
    have hsecond := hat (i + 1) (by omega) (by omega)
    rw [segments_of_none (by omega) hs (hat i (by omega) (Nat.le_refl _))
      (readTransition_pair hs (by omega) h hsecond)]
    have hnext := ih (i := i + 2) (by omega) (not_followsWord_succ hsecond)
      fun j hj hij => hat j (by omega) (by omega)
    rwa [show i + 2 + 2 * k = i + 2 * (k + 1) by omega] at hnext

/-- **A run that follows no word is passed.** -/
theorem AtRun.segments_eq {start stop : Nat} (h : AtRun src start stop) (hpairs : InPairs src)
    (hword : ¬ FollowsWord src start) :
    segments src start src.size = segments src stop src.size := by
  obtain ⟨k, hk⟩ := hpairs start stop h
  have hlt := h.nonempty
  have heq : start + 2 * k = stop := by omega
  rw [segments_pairs k (Nat.le_refl _) (heq ▸ h.stop_le) hword fun j hj => h.all j (heq ▸ hj), heq]

/-- **A run that follows a word is passed up to its last `@`.** -/
theorem AtRun.segments_eq_last {start stop : Nat} (h : AtRun src start stop)
    (hpairs : InPairs src) (hword : FollowsWord src start) :
    segments src start src.size = segments src (stop - 1) src.size := by
  obtain ⟨k, hk⟩ := hpairs start stop h
  have hlt := h.nonempty
  have hle := h.stop_le
  have hfirst := h.all start hlt (Nat.le_refl _)
  rw [segments_of_none (by omega) (Nat.le_refl _) hfirst
    (readTransition_embedded (by omega) hword)]
  show segments src (start + 1) src.size = _
  have heq : start + 1 + 2 * (k - 1) = stop - 1 := by omega
  rw [segments_pairs (k - 1) (Nat.le_refl _) (by omega) (not_followsWord_succ hfirst)
    fun j hj hij => h.all j (by omega) (by omega), heq]

/-- **The last `@` of a run** leaves the template without constructs if and only if it opens
none and there are none behind the run. -/
theorem AtRun.segments_last_eq_nil_iff {start stop : Nat} (h : AtRun src start stop) :
    segments src (stop - 1) src.size = .ok []
      ↔ OpensNothing src (stop - 1) ∧ segments src stop src.size = .ok [] := by
  have hlt := h.nonempty
  have hle := h.stop_le
  have hat := h.all (stop - 1) (by omega) (by omega)
  have hin : stop - 1 < src.size := by omega
  have hopens : OpensNothing src (stop - 1)
      ↔ ∃ next, readTransition src (stop - 1) src.size = .ok (none, next) := Iff.rfl
  rw [segments_of_at hin (Nat.le_refl _) hat, hopens]
  cases hread : readTransition src (stop - 1) src.size with
  | error e => exact iff_of_false (fun hnil => nomatch hnil) fun ⟨⟨_, hn⟩, _⟩ => nomatch hn
  | ok r =>
    obtain ⟨segment?, next, hnext⟩ := r
    cases segment? with
    | none =>
      -- what is passed with the last `@` holds no other
      have hfree := readTransition_passes _ hread rfl
      have hend := (readTransition_read hin _ hread).2
      dsimp only at hfree hend
      rw [and_iff_right ⟨_, rfl⟩]
      show segments src next src.size = _ ↔ _
      rw [segments_of_free (a := stop) (b := next) (by omega) hend fun j hj hlt => ?_]
      rcases Nat.eq_or_lt_of_le hj with rfl | hj
      · exact h.behind
      · exact hfree j (by omega) hlt
    | some s =>
      have hfound : Answers (do
          let children ← s.markup.mapM fun run => segments src run.start run.stop
          return { s with children := children.flatten } :: (← segments src next src.size))
          (· ≠ []) :=
        .bind .any fun children _ => .bind .any fun rest _ => .pure (List.cons_ne_nil _ _)
      exact iff_of_false (fun hnil => hfound _ hnil rfl) fun ⟨⟨_, hn⟩, _⟩ => nomatch hn

/-! ## The whole -/

/-- The constructs of what is left, from an offset that no run goes across. -/
theorem segments_eq_nil_iff (h : InPairs src) {cursor : Nat} (hc : cursor ≤ src.size)
    (hclear : src[cursor]? = some 0x40 → cursor = 0 ∨ src[cursor - 1]? ≠ some 0x40) :
    segments src cursor src.size = .ok [] ↔ ∀ start stop, cursor ≤ start →
      AtRun src start stop → FollowsWord src start → OpensNothing src (stop - 1) := by
  induction hn : src.size - cursor using Nat.strongRecOn generalizing cursor with
  | ind n ih =>
    cases hfind : src.find [0x40] cursor src.size with
    | none =>
      have hnone := Bytes.find_eq_none_iff.mp hfind
      refine iff_of_true ?_ fun start stop hle hrun => ?_
      · rw [segments_eq, scanRound, hfind, ite_self]
      · have hat := hrun.all start hrun.nonempty (Nat.le_refl _)
        have hlt := (Array.getElem?_eq_some_iff.mp hat).1
        refine absurd (Bytes.hasAt_singleton.mpr hat) (hnone start hle ?_)
        show start + 1 ≤ min src.size src.size
        omega
    | some mark =>
      obtain ⟨⟨hle, -, hhas⟩, hfirst⟩ := Bytes.find_eq_some_iff.mp hfind
      have hat := Bytes.hasAt_singleton.mp hhas
      have hfree : ∀ j, cursor ≤ j → j < mark → src[j]? ≠ some 0x40 := fun j hj hlt hj' =>
        hfirst j hj hlt (Bytes.hasAt_singleton.mpr hj')
      obtain ⟨behind, hrun⟩ : ∃ behind, AtRun src mark behind := by
        refine exists_run hat ?_
        rcases Nat.eq_or_lt_of_le hle with rfl | hlt
        · exact hclear hat
        · exact .inr (hfree (mark - 1) (by omega) (by omega))
      have hnonempty := hrun.nonempty
      have hend := hrun.stop_le
      have hlater := ih _ (by omega) hrun.stop_le (fun h => absurd h hrun.behind) rfl
      -- of the runs that are left, one is here and the others are behind it
      have hruns : (∀ start stop, cursor ≤ start → AtRun src start stop →
            FollowsWord src start → OpensNothing src (stop - 1))
          ↔ (FollowsWord src mark → OpensNothing src (behind - 1)) ∧
            ∀ start stop, behind ≤ start → AtRun src start stop →
              FollowsWord src start → OpensNothing src (stop - 1) := by
        refine ⟨fun hall => ⟨hall mark behind hle hrun, fun start stop hstart =>
          hall start stop (by omega)⟩, ?_⟩
        rintro ⟨hhere, hall⟩ start stop hstart hother
        have hmark : mark ≤ start := Nat.not_lt.mp fun hlt =>
          hfree start hstart hlt (hother.all start hother.nonempty (Nat.le_refl _))
        rcases hrun.eq_or_le hother hmark with rfl | hbehind
        · exact hother.stop_eq hrun ▸ hhere
        · exact hall start stop hbehind hother
      rw [segments_of_free hle (by omega) hfree, hruns, ← hlater]
      by_cases hword : FollowsWord src mark
      · rw [hrun.segments_eq_last h hword, hrun.segments_last_eq_nil_iff,
          imp_iff_right hword]
      · rw [hrun.segments_eq h hword, and_iff_right fun hw => absurd hw hword]

/-- **A template of pairs**: it holds no construct exactly if no run that follows a word ends
with an `@` that opens something. -/
theorem scan_escaped (h : InPairs src) : scan src = .ok []
    ↔ ∀ start stop, AtRun src start stop → FollowsWord src start →
      OpensNothing src (stop - 1) := by
  have hall := segments_eq_nil_iff h (Nat.zero_le _) fun _ => .inl rfl
  rw [scan]
  simpa only [Nat.zero_le, true_imp_iff] using hall

/-- A pair behind a bracket: `<@@a`. -/
theorem scan_escaped_bracket : InPairs #[0x3C, 0x40, 0x40, 0x61]
    ∧ scan #[0x3C, 0x40, 0x40, 0x61] = .ok [] := by
  have hpairs : InPairs #[0x3C, 0x40, 0x40, 0x61] := by decide
  refine ⟨hpairs, (scan_escaped hpairs).mpr fun start stop hrun hword => ?_⟩
  have hnone : ∀ start, start < 4 → (#[0x3C, 0x40, 0x40, 0x61] : Bytes)[start]? = some 0x40 →
      ¬ FollowsWord #[0x3C, 0x40, 0x40, 0x61] start := by decide
  have hlt : start < 4 := Nat.lt_of_lt_of_le hrun.nonempty hrun.stop_le
  exact absurd hword (hnone start hlt (hrun.all start hrun.nonempty (Nat.le_refl _)))

/-- **A pair behind a word** is torn: in `a@@b`, as in an e-mail address with an escaped sign,
the second `@` opens an expression. -/
theorem scan_escaped_torn : InPairs #[0x61, 0x40, 0x40, 0x62]
    ∧ (scan #[0x61, 0x40, 0x40, 0x62]).map (fun scanned =>
        scanned.map fun s => (s.construct, s.range)) = .ok [(.implicitExpression "b", ⟨2, 4⟩)]
    ∧ ¬ ∀ src, InPairs src → scan src = .ok [] := by
  have hpairs : InPairs #[0x61, 0x40, 0x40, 0x62] := by decide
  have hscan : (scan #[0x61, 0x40, 0x40, 0x62]).map (fun scanned =>
      scanned.map fun s => (s.construct, s.range)) = .ok [(.implicitExpression "b", ⟨2, 4⟩)] := by
    decide +kernel
  refine ⟨hpairs, hscan, fun h => ?_⟩
  rw [h _ hpairs] at hscan
  cases hscan

end SyntaxForest.Template
