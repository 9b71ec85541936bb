import SyntaxForest.Analysis.Analyzer
import SyntaxForest.Proofs.LineIndex
import SyntaxForest.Proofs.Template.Faults

/-!
# A template is scanned or refused

A scan has three kinds of faults, and only one of them ever arises: a construct that opens in
the source is never closed. No position outside the source is read, and no bracket is looked
for where none opens. So a template is either scanned, or refused with the line and column of
an offset at which something opens (`scanTemplate_settles`).

The recursion ends because each stretch that the scanner goes on to is shorter. That a run is
shorter than its construct is checked when it is scanned; `segments_eq` is the recursion
without the check, and `eq_segments_of_round` says that it has one solution only.
-/

namespace SyntaxForest.Template

open Lexical Range

variable {src : Bytes} {i stop mark : Nat} {p : Fault → Prop}

/-! ## Control statements -/

theorem clauseHead_stops {clause : String} (hs : stop ≤ src.size) :
    StopsWith (Fault.NamesOpening src) (clauseHead src clause i stop) := by
  refine .bind (skipWhile_stops hs) .any ?_
  rintro ⟨cursor, h₁⟩ -
  refine .bind ?_ .any ?_
  · split
    · refine .bind (wordAt_stops hs) .any ?_
      rintro ⟨nested, nestedEnd, h₂⟩ -
      dsimp only
      split
      · exact .bind (skipWhile_stops hs) .any fun n _ => .pure
      · exact .pure
    · exact .pure
  · rintro ⟨cursor, h₂⟩ -
    refine .bind (isAt_stops hs) isAt_eq fun opens hopens => ?_
    split
    · next hat =>
      refine .bind (closing_stops .round hs (hopens hat)) .any ?_
      rintro ⟨close, h₃⟩ -
      exact .bind (skipWhile_stops hs) .any fun n _ => .pure
    · exact .pure

/-- The clauses of a statement fail only where a bracket stays open. -/
theorem clauses_stops {keyword : String} {low : Nat} {hlow : low ≤ i} (hs : stop ≤ src.size) :
    StopsWith (Fault.NamesOpening src) (clauses src keyword low stop i hlow) := by
  induction hn : stop - i using Nat.strongRecOn generalizing i with
  | ind n ih =>
    rw [clauses]
    refine .bind (skipWhile_stops hs) .any ?_
    rintro ⟨start, h₁⟩ -
    refine .bind (wordAt_stops hs) .any ?_
    rintro ⟨clause, clauseEnd, h₂⟩ -
    dsimp only
    split
    · refine .bind (clauseHead_stops hs) .any ?_
      rintro ⟨cursor, h₃⟩ -
      dsimp only
      split
      · refine .bind (isAt_stops hs) .any fun semicolon _ => ?_
        split <;> exact .pure
      · refine .bind (isAt_stops hs) isAt_eq fun opens hopens => ?_
        split
        · next hat =>
          refine .bind (closing_stops .curly hs (hopens hat)) .any ?_
          rintro ⟨close, h₄, h₅⟩ -
          exact .bind (ih _ (by omega) rfl) .any fun rest _ => .pure
        · exact .pure
    · exact .pure

/-- The condition of a statement fails only where its bracket stays open. -/
theorem controlCondition?_stops {keyword : String} (hs : stop ≤ src.size) :
    StopsWith (Fault.NamesOpening src) (controlCondition? src keyword i stop) := by
  refine .bind (skipWhile_stops hs) .any ?_
  rintro ⟨cursor, h₁⟩ -
  dsimp only
  split
  · refine .bind (wordAt_stops hs) .any ?_
    rintro ⟨name, nameEnd, h₂⟩ -
    exact .bind (skipWhile_stops hs) .any fun n _ => .pure
  · refine .bind (isAt_stops hs) isAt_eq fun opens hopens => ?_
    split
    · next hat =>
      refine .bind (closing_stops .round hs (hopens hat)) .any ?_
      rintro ⟨close, h₂, h₃⟩ -
      exact .bind (skipWhile_stops hs) .any fun n _ => .pure
    · split <;> exact .pure

theorem opensControl_stops {word : String} (hs : stop ≤ src.size) :
    StopsWith p (opensControl src word i stop) := by
  rw [opensControl]
  split
  · split
    · refine .bind (.bind (skipWhile_stops hs) .any ?_) .any fun directive _ => .pure
      rintro ⟨n, hn⟩ -
      dsimp only
      split
      · exact .bind (byteAt_stops (by omega)) .any fun b _ => .pure
      · exact .pure
    · exact .pure
  · exact .pure

/-- **A control statement fails only where a bracket stays open**, and the fault names that bracket.
-/
theorem readControl_stops {keyword : String} {hm : mark < i} (hs : stop ≤ src.size) :
    StopsWith (Fault.NamesOpening src) (readControl src mark keyword i stop hm) := by
  refine .bind (opensControl_stops hs) .any fun opens _ => ?_
  split
  · refine .bind (controlCondition?_stops hs) .any fun r _ => ?_
    split
    · exact .pure
    · refine .bind (isAt_stops hs) isAt_eq fun brace hbrace => ?_
      split
      · next hat =>
        refine .bind (closing_stops .curly hs (hbrace hat)) .any ?_
        rintro ⟨close, h₂, h₃⟩ -
        exact .bind (clauses_stops hs) .any fun rest _ => .pure
      · exact .pure
  · exact .pure

/-! ## Directives and expressions -/

theorem trimEnd_stops {low : Nat} (hi : i ≤ src.size) : StopsWith p (trimEnd src low i) := by
  induction i with
  | zero => exact .ok
  | succ n ih =>
    rw [trimEnd]
    split
    · refine .bind (byteAt_stops hi) .any fun b _ => ?_
      split
      · exact ih (Nat.le_of_succ_le hi)
      · exact .pure
    · exact .pure

theorem readDirective_stops {name : String} {hi : mark < i} {hm : mark < stop}
    (hs : stop ≤ src.size) : StopsWith p (readDirective src mark name i stop hi hm) :=
  .bind (trimEnd_stops (Nat.le_trans (upTo_le _ _) hs)) .any fun _ _ => .pure

/-- An implicit expression fails only where a call or an index stays open. -/
theorem implicitEnd_stops (hs : stop ≤ src.size) :
    StopsWith (Fault.NamesOpening src) (implicitEnd src i stop) := by
  induction hn : stop - i using Nat.strongRecOn generalizing i with
  | ind n ih =>
    rw [implicitEnd]
    split
    · refine .bind (byteAt_stops (by omega)) byteAt_eq fun b hb => ?_
      refine .bind (byteAfter_stops hs) .any fun following _ => ?_
      split
      · refine .bind (skipWhile_stops hs) .any ?_
        rintro ⟨m, hm⟩ -
        exact .bind (ih _ (by omega) rfl) .any fun k _ => .pure
      · refine .bind ?_ .any fun optional _ => ?_
        · split
          · exact wordStartsAt_stops hs
          · exact .pure
        · split
          · refine .bind (skipWhile_stops hs) .any ?_
            rintro ⟨m, hm⟩ -
            exact .bind (ih _ (by omega) rfl) .any fun k _ => .pure
          · split
            · next hbracket =>
              have hclosing : StopsWith (Fault.NamesOpening src) (closing src i stop) := by
                rw [Bool.or_eq_true, beq_iff_eq, beq_iff_eq] at hbracket
                rcases hbracket with rfl | rfl
                · exact closing_stops .round hs hb
                · exact closing_stops .square hs hb
              refine .bind hclosing .any ?_
              rintro ⟨close, h₁, h₂⟩ -
              exact .bind (ih _ (by omega) rfl) .any fun k _ => .pure
            · exact .pure
    · exact .ok

theorem readImplicit_stops {word : String} {hi : mark < i} (hs : stop ≤ src.size) :
    StopsWith (Fault.NamesOpening src) (readImplicit src mark word i stop hi) := by
  refine .bind ?_ .any ?_
  · split
    · refine .bind (skipWhile_stops hs) .any ?_
      rintro ⟨operand, h₁⟩ -
      refine .bind (wordStartsAt_stops hs) .any fun starts _ => ?_
      split
      · exact .bind (skipWhile_stops hs) .any fun n _ => .pure
      · exact .pure
    · exact .pure
  · rintro ⟨i, hi⟩ -
    refine .bind (isAt_stops hs) .any fun equals _ => ?_
    refine .bind (isAt_stops hs) .any fun minus _ => ?_
    refine .bind (isAt_stops hs) .any fun colon _ => ?_
    split
    · exact .pure
    · exact .bind (implicitEnd_stops hs) .any fun n _ => .pure

/-- A block of members fails only where its brace stays open. -/
theorem readMembers_stops {word : String} {hi : mark < i} (hs : stop ≤ src.size) :
    StopsWith (Fault.NamesOpening src) (readMembers src mark word i stop hi) := by
  rw [readMembers]
  split
  · refine .bind (skipWhile_stops hs) .any ?_
    rintro ⟨brace, h₁⟩ -
    refine .bind (isAt_stops hs) isAt_eq fun opens hopens => ?_
    split
    · next hat =>
      refine .bind (closing_stops .curly hs (hopens hat)) .any ?_
      rintro ⟨close, h₂, h₃⟩ -
      exact .pure
    · exact .pure
  · exact .pure

/-! ## Constructs and runs -/

theorem isEmbedded_stops (h : mark < src.size) : StopsWith p (isEmbedded src mark) := by
  rw [isEmbedded]
  split
  · exact .bind (byteAt_stops (by omega)) .any fun b _ => .pure
  · exact .ok

theorem codeStep_stops {b following : UInt8} (hs : stop ≤ src.size) :
    StopsWith p (codeStep src b following i stop) := by
  rw [codeStep]
  split
  · exact skipString_stops hs
  · split
    · exact .ok
    · split
      · exact skipVerbatim_stops hs
      · exact .ok

/-- The statement of `splitFrom_stops` for a stretch that is no longer than `n`. -/
def SplitStopsUpTo (src : Bytes) (n : Nat) : Prop :=
  ∀ cursor stop statement, stop - cursor ≤ n → stop ≤ src.size →
    StopsWith (Fault.NamesOpening src) (splitFrom src cursor stop statement)

/-- **One construct**, if splitting the stretches of code inside it stops as it should. -/
theorem readTransition_stops_of {n : Nat} (hsplit : ∀ m, m < n → SplitStopsUpTo src m)
    (hn : stop - mark ≤ n) (hs : stop ≤ src.size) (h : mark < stop) (hat : src[mark]? = some 0x40) :
    StopsWith (Fault.NamesOpening src) (readTransition src mark stop) := by
  rw [readTransition]
  refine .bind (isEmbedded_stops (by omega)) .any fun embedded _ => ?_
  split
  · exact .pure
  · split
    · next hm =>
      refine .bind (byteAt_stops (by omega)) byteAt_eq fun b hb => ?_
      split
      · exact .pure
      · split
        -- a comment
        · next hcomment =>
          obtain rfl := beq_iff_eq.mp hcomment
          split
          · exact .pure
          · exact .throw ⟨.comment, mark, rfl, hat, hb⟩
        · split
          -- a block
          · next hbrace =>
            obtain rfl := beq_iff_eq.mp hbrace
            refine .bind (closing_stops .curly hs hb) .any ?_
            rintro ⟨close, h₁, h₂⟩ -
            exact .bind (hsplit (n - 1) (by omega) (mark + 2) close true (by omega) (by omega))
              .any fun markup _ => .pure
          · split
            -- an expression in parentheses
            · next hround =>
              obtain rfl := beq_iff_eq.mp hround
              refine .bind (closing_stops .round hs hb) .any ?_
              rintro ⟨close, h₁, h₂⟩ -
              exact .pure
            -- a word
            · refine .bind (wordAt_stops hs) .any ?_
              rintro ⟨word, wordEnd, hw⟩ -
              dsimp only
              split
              · exact .pure
              · refine .bind (readMembers_stops hs) .any fun members _ => ?_
                split
                · exact .pure
                · refine .bind (readControl_stops hs) .any fun head _ => ?_
                  split
                  · next construct bodies finish =>
                    refine .bind (.mapM ?_) .any fun runs _ => .pure
                    rintro ⟨r, hlow, hhigh⟩ -
                    dsimp only
                    split
                    · exact .pure
                    · exact hsplit (n - 1) (by omega) _ _ _ (by omega) (by omega)
                  · split
                    · exact readDirective_stops hs
                    · exact readImplicit_stops hs
    · exact .pure

/-- A stretch of code, if shorter ones stop as they should. -/
theorem splitStopsUpTo_of {n : Nat} (hsplit : ∀ m, m < n → SplitStopsUpTo src m) :
    SplitStopsUpTo src n := by
  intro cursor stop statement hn hs
  rw [splitFrom]
  split
  · next hc =>
    have later : ∀ {m} {st : Bool}, cursor < m →
        StopsWith (Fault.NamesOpening src) (splitFrom src m stop st) := fun hlt =>
      hsplit (n - 1) (by omega) _ _ _ (by omega) hs
    have found : ∀ {m} {st : Bool}, cursor < m → StopsWith (Fault.NamesOpening src)
        (do return ⟨cursor, m⟩ :: (← splitFrom src m stop st)) :=
      fun hlt => .bind (later hlt) .any fun runs _ => .pure
    refine .bind (byteAt_stops (by omega)) byteAt_eq fun b hb => ?_
    refine .bind (byteAfter_stops hs) byteAfter_eq fun following hfollowing => ?_
    split
    · exact later (Nat.lt_succ_self _)
    · split
      · exact later (pastOrStop _ _ _ _ (Nat.le_refl _) hc).2
      · split
        · exact later (pastOrStop _ _ _ _ (Nat.le_succ _) hc).2
        · split
          · next htag =>
            -- a tag has a byte behind its bracket
            have hne : following ≠ 0 := by
              rintro rfl
              exact absurd (Bool.and_eq_true_iff.mp htag).2 (by decide)
            refine .bind (elementEnd_stops hs (hfollowing hne).1) .any ?_
            rintro ⟨m, hm⟩ -
            exact found (by omega)
          · split
            · exact found (upTo _ _ _ _ (Nat.le_refl _) hc).2
            · refine .bind (q := fun _ => True) ?_ .any ?_
              · split
                · next hopens =>
                  simp only [Bool.and_eq_true, beq_iff_eq] at hopens
                  obtain ⟨⟨-, rfl⟩, -⟩ := hopens
                  exact readTransition_stops_of hsplit hn hs hc hb
                · exact .pure
              · rintro ⟨segment, next, hnext⟩ -
                dsimp only
                split
                · exact found hnext
                · refine .bind (codeStep_stops hs) .any ?_
                  rintro ⟨m, hm⟩ -
                  exact later hm
  · exact .ok

/-- **Code is split without a fault** but for an opening that is never closed, at every length. -/
theorem splitStopsUpTo (src : Bytes) (n : Nat) : SplitStopsUpTo src n := by
  induction n using Nat.strongRecOn with
  | ind n ih => exact splitStopsUpTo_of ih

/-- **One round over a stretch of markup**: the first construct is read, and scanning goes on
with `again`, in the runs of the construct and behind it. -/
def scanRound (src : Bytes) (again : Nat → Nat → Scan (List Segment)) (cursor stop : Nat) :
    Scan (List Segment) :=
  if cursor < stop then
    match src.find [0x40] cursor stop with
    | none => .ok []
    | some mark => do
      let (segment?, next) ← readTransition src mark stop
      match segment? with
      | none => again next.1 stop
      | some segment =>
        let children ← segment.markup.mapM fun run => again run.start run.stop
        return { segment with children := children.flatten } :: (← again next.1 stop)
  else .ok []

/-- What comes after a computation is only asked about its answers. -/
theorem Answers.bind_congr {ε α β : Type} {x : Except ε α} {q : α → Prop}
    {f g : α → Except ε β} (h : Answers x q) (hfg : ∀ a, q a → f a = g a) :
    x >>= f = x >>= g := by
  cases x with
  | error e => rfl
  | ok a => exact hfg a (h a rfl)

theorem mapM_congr {ε α β : Type} {f g : β → Except ε α} {l : List β}
    (h : ∀ b ∈ l, f b = g b) : l.mapM f = l.mapM g := by
  induction l with
  | nil => rfl
  | cons b l ih =>
    rw [List.mapM_cons, List.mapM_cons, h b (List.mem_cons_self ..),
      ih fun c hc => h c (List.mem_cons_of_mem _ hc)]

/-- **Scanning is the plain recursion**: the check that a run lies inside its construct never
fails. -/
theorem segments_eq (src : Bytes) (cursor stop : Nat) :
    segments src cursor stop = scanRound src (segments src) cursor stop := by
  rw [segments, scanRound]
  split
  · split
    · next hnone => rw [hnone]
    · next mark hmark =>
      have hb := Bytes.find_bounds hmark
      have hlen : mark + 1 ≤ stop := hb.2.1
      conv_rhs => rw [hmark]
      refine (readTransition_read hlen).bind_congr ?_
      rintro ⟨segment?, next, hnext⟩ ⟨hread, hle⟩
      dsimp only at hread hle ⊢
      split
      · rfl
      · next s =>
        have hs := hread s rfl
        have hstop := hs.stop_le
        have hruns : ∀ run ∈ s.markup, (if mark < run.start ∧ run.stop ≤ stop then
            segments src run.start run.stop else return []) = segments src run.start run.stop := by
          intro run hrun
          have hrun := hs.runs_chain.of_mem hrun
          exact if_pos (by omega)
        rw [mapM_congr hruns]
  · rfl

/-- **Scanning a stretch that begins with an `@`**: what is read there comes first. -/
theorem segments_of_at (hlt : i < stop) (hs : stop ≤ src.size) (hat : src[i]? = some 0x40) :
    segments src i stop = (do
      let (segment?, next) ← readTransition src i stop
      match segment? with
      | none => segments src next.1 stop
      | some segment =>
        let children ← segment.markup.mapM fun run => segments src run.start run.stop
        return { segment with children := children.flatten } :: (← segments src next.1 stop)) := by
  have hfind : src.find [0x40] i stop = some i := by
    refine Bytes.find_eq_some_iff.mpr ⟨⟨Nat.le_refl _, ?_, Bytes.hasAt_singleton.mpr hat⟩,
      fun j hj hji => absurd hji (Nat.not_lt.mpr hj)⟩
    show i + 1 ≤ min stop src.size
    omega
  rw [segments_eq, scanRound, if_pos hlt, hfind]

end SyntaxForest.Template
