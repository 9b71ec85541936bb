import SyntaxForest.Proofs.Template.Boundaries
import SyntaxForest.Proofs.Template.Settling

/-!
# No character is cut

`Segment.Uncut` says that a construct stands between characters: it begins and ends at borders, and
so do its content, its bodies and its runs of markup, and the texts that it shows are parts of the
source. The scanner keeps that at every level (`scan_uncut`), whatever the source holds beyond
ASCII: each position that it answers with is next to an ASCII byte, or is the end of a range that
ends at a border. What is left of the source when code is blanked is then a text again
(`exists_blankRanges`), since a character is blanked as a whole or not at all.
-/

namespace SyntaxForest.Template

open Lexical

variable {text : String} {i stop mark : Nat}

/-- **A range that cuts no character.** -/
structure Range.Uncut (text : String) (r : Range) : Prop where
  start : IsBoundary text r.start
  stop : IsBoundary text r.stop

/-- **A construct that shows parts of the text** only. -/
def Construct.Shows (text : String) (c : Construct) : Prop :=
  ∀ p ∈ c.properties, ∀ value ∈ p.2, IsPart text value

/-- **A construct that cuts no character.** -/
structure Segment.Uncut (text : String) (s : Segment) : Prop where
  range : s.range.Uncut text
  parts : ∀ part ∈ s.parts, part.Uncut text
  runs : ∀ run ∈ s.markup, run.Uncut text
  shows : s.construct.Shows text

/-! ## Texts -/

theorem isPart_trim (hi : IsBoundary text i) (hs : IsBoundary text stop) :
    IsPart text (Text.trim (textOf (Bytes.ofText text) i stop)) :=
  (Text.trim_isPart _).trans (textOf_isPart hi hs)

theorem isPart_of_mem_some {value : String} (h : IsPart text value) :
    ∀ v ∈ some value, IsPart text v := fun _ hv => Option.some.inj hv ▸ h

/-- A text that is left out if it is empty. -/
theorem isPart_of_mem_ite {value v : String} (h : IsPart text value)
    (hv : v ∈ if value = "" then none else some value) : IsPart text v := by
  split at hv
  · exact absurd hv (Option.not_mem_none v)
  · cases hv
    exact h

namespace Construct.Shows

variable {value name : String} {value? : Option String}

theorem comment (h : IsPart text value) : (Construct.comment value).Shows text := by
  simpa [Shows, Construct.properties] using h

theorem explicitExpression (h : IsPart text value) :
    (Construct.explicitExpression value).Shows text := by
  simpa [Shows, Construct.properties] using h

theorem implicitExpression (h : IsPart text value) :
    (Construct.implicitExpression value).Shows text := by
  simpa [Shows, Construct.properties] using h

theorem codeBlock (h : ∀ v ∈ value?, IsPart text v) : (Construct.codeBlock value?).Shows text := by
  cases value? with
  | none => simp [Shows, Construct.properties]
  | some value => simpa [Shows, Construct.properties] using h

theorem directive (hname : IsPart text name) (h : ∀ v ∈ value?, IsPart text v) :
    (Construct.directive name value?).Shows text := by
  simpa [Shows, Construct.properties] using And.intro hname h

theorem control (hname : IsPart text name) (h : ∀ v ∈ value?, IsPart text v) :
    (Construct.control name value?).Shows text := by
  cases value? with
  | none => simpa [Shows, Construct.properties] using hname
  | some value => simpa [Shows, Construct.properties] using And.intro hname (h value rfl)

theorem sectionBlock (hname : IsPart text "section") (h : ∀ v ∈ value?, IsPart text v) :
    (Construct.sectionBlock value?).Shows text := by
  simpa [Shows, Construct.properties] using And.intro hname h

end Construct.Shows

/-- A construct without bodies cuts no character if its ends do not. -/
theorem Segment.Uncut.simple {construct : Construct} (hi : IsBoundary text i)
    (hs : IsBoundary text stop) (h : construct.Shows text) :
    (Segment.simple construct i stop).Uncut text where
  range := ⟨hi, hs⟩
  parts := fun _ hpart => nomatch hpart
  runs := fun _ hrun => nomatch hrun
  shows := h

/-! ## Control statements -/

theorem clauseHead_boundary {clause : String} (hi : IsBoundary text i)
    (hs : IsBoundary text stop) :
    Answers (clauseHead (Bytes.ofText text) clause i stop) (IsBoundary text ·.1) := by
  refine .bind (skipBlanks_boundary hi) ?_
  rintro ⟨cursor, h₁⟩ hcursor
  refine .bind (p := (IsBoundary text ·.1)) ?_ ?_
  · split
    · refine .bind (wordAt_boundary hcursor hs) ?_
      rintro ⟨nested, nestedEnd, h₂⟩ ⟨-, hnested⟩
      dsimp only
      split
      · exact .bind (skipBlanks_boundary hnested) fun n hn => .pure hn
      · exact .pure hcursor
    · exact .pure hcursor
  · rintro ⟨head, h₂⟩ hhead
    refine .bind .any fun opens _ => ?_
    split
    · refine .bind closing_boundary ?_
      rintro ⟨close, h₃, h₄⟩ ⟨-, hclose⟩
      exact .bind (skipBlanks_boundary hclose) fun n hn => .pure hn
    · exact .pure hhead

/-- **The bodies of the clauses** stand between braces. -/
theorem clauses_uncut {keyword : String} {low : Nat} {hlow : low ≤ i} (hi : IsBoundary text i)
    (hs : IsBoundary text stop) :
    Answers (clauses (Bytes.ofText text) keyword low stop i hlow)
      fun r => (∀ body ∈ r.1, body.1.Uncut text) ∧ IsBoundary text r.2.1 := by
  induction hn : stop - i using Nat.strongRecOn generalizing i with
  | ind n ih =>
    have hnone : ∀ body ∈ ([] : List (Body low stop)), body.1.Uncut text := fun _ hbody =>
      nomatch hbody
    rw [clauses]
    refine .bind (skipBlanks_boundary hi) ?_
    rintro ⟨start, h₁⟩ hstart
    refine .bind (wordAt_boundary hstart hs) ?_
    rintro ⟨clause, clauseEnd, h₂⟩ ⟨-, hclause⟩
    dsimp only at hclause ⊢
    split
    · refine .bind (clauseHead_boundary hclause hs) ?_
      rintro ⟨cursor, h₃⟩ hcursor
      dsimp only at hcursor ⊢
      split
      · refine .bind isAt_eq fun semicolon hsemicolon => ?_
        split
        · next hat => exact .pure ⟨hnone, .succ_ascii (hsemicolon hat) (by decide)⟩
        · exact .pure ⟨hnone, hcursor⟩
      · refine .bind isAt_eq fun opens hopens => ?_
        split
        · next hat =>
          refine .bind closing_boundary ?_
          rintro ⟨close, h₄, h₅⟩ ⟨hclose, hbehind⟩
          refine .bind (ih _ (by omega) hbehind rfl) ?_
          rintro ⟨rest, m, h₆⟩ ⟨hrest, hm⟩
          have hopen := IsBoundary.succ_ascii (hopens hat) (by decide)
          exact .pure ⟨List.forall_mem_cons.mpr ⟨⟨hopen, hclose⟩, hrest⟩, hm⟩
        · exact .pure ⟨hnone, hi⟩
    · exact .pure ⟨hnone, hi⟩

/-- **What a control statement shows** is part of the text: its keyword, its condition or its name.
-/
theorem controlCondition?_shows {keyword : String} (hi : IsBoundary text i)
    (hs : IsBoundary text stop) (hkeyword : IsPart text keyword) :
    Answers (controlCondition? (Bytes.ofText text) keyword i stop)
      (∀ r ∈ ·, r.1.Shows text) := by
  refine .bind (skipBlanks_boundary hi) ?_
  rintro ⟨cursor, h₁⟩ hcursor
  dsimp only at hcursor ⊢
  split
  · next hsection =>
    refine .bind (wordAt_boundary hcursor hs) ?_
    rintro ⟨name, nameEnd, h₂⟩ ⟨hname, -⟩
    refine .bind .any ?_
    rintro ⟨n, h₃⟩ -
    refine .pure ?_
    rintro r ⟨⟩
    subst hsection
    exact .sectionBlock hkeyword fun v hv => isPart_of_mem_ite hname hv
  · refine .bind isAt_eq fun opens hopens => ?_
    split
    · next hat =>
      refine .bind closing_boundary ?_
      rintro ⟨close, h₂, h₃⟩ ⟨hclose, -⟩
      refine .bind .any ?_
      rintro ⟨n, h₄⟩ -
      refine .pure ?_
      rintro r ⟨⟩
      have hopen := IsBoundary.succ_ascii (hopens hat) (by decide)
      refine .control hkeyword ?_
      exact isPart_of_mem_some (isPart_trim hopen hclose)
    · split
      · refine .pure ?_
        rintro r ⟨⟩
        exact .control hkeyword fun v hv => absurd hv (Option.not_mem_none v)
      · exact .pure fun r hr => absurd hr (Option.not_mem_none r)

/-- **A control statement** shows its keyword and its condition, and has its bodies between
braces. -/
theorem readControl_uncut {keyword : String} {hm : mark < i} (hi : IsBoundary text i)
    (hs : IsBoundary text stop) (hkeyword : IsPart text keyword) :
    Answers (readControl (Bytes.ofText text) mark keyword i stop hm) (∀ head ∈ ·,
      head.construct.Shows text ∧ (∀ body ∈ head.bodies, body.1.Uncut text)
        ∧ IsBoundary text head.finish.1) := by
  refine .bind .any fun opens _ => ?_
  split
  · refine .bind (controlCondition?_shows hi hs hkeyword) fun r hr => ?_
    split
    · exact .pure fun _ h => absurd h (Option.not_mem_none _)
    · next construct cursor h₁ =>
      refine .bind isAt_eq fun brace hbrace => ?_
      split
      · next hat =>
        refine .bind closing_boundary ?_
        rintro ⟨close, h₂, h₃⟩ ⟨hclose, hbehind⟩
        refine .bind (clauses_uncut hbehind hs) ?_
        rintro ⟨rest, n, h₄⟩ ⟨hrest, hn⟩
        refine .pure ?_
        rintro head ⟨⟩
        have hopen := IsBoundary.succ_ascii (hbrace hat) (by decide)
        exact ⟨hr _ rfl, List.forall_mem_cons.mpr ⟨⟨hopen, hclose⟩, hrest⟩, hn⟩
      · exact .pure fun _ h => absurd h (Option.not_mem_none _)
  · exact .pure fun _ h => absurd h (Option.not_mem_none _)

/-! ## Directives and expressions -/

theorem trimEnd_boundary {low : Nat} (hi : IsBoundary text i) :
    Answers (trimEnd (Bytes.ofText text) low i) (IsBoundary text ·) := by
  induction i with
  | zero => exact .ok hi
  | succ n ih =>
    rw [trimEnd]
    split
    · refine .bind byteAt_eq fun b hb => ?_
      split
      · next hblank =>
        refine ih (.at_ascii hb ?_)
        simp only [Bool.or_eq_true, beq_iff_eq] at hblank
        rcases hblank with (rfl | rfl) | rfl <;> decide
      · exact .pure hi
    · exact .pure hi

/-- What is asked of the answer at a transition: the construct, if there is one, and where scanning
goes on behind it. -/
def FoundUncut (text : String) {low : Nat} (r : Option Segment × AtLeast low) : Prop :=
  ∀ s ∈ r.1, s.Uncut text ∧ IsBoundary text r.2.1

theorem FoundUncut.none {low : Nat} {n : AtLeast low} : FoundUncut text (none, n) :=
  fun s hs => absurd hs (Option.not_mem_none s)

theorem FoundUncut.some {low : Nat} {n : AtLeast low} {s : Segment} (hs : s.Uncut text)
    (hn : IsBoundary text n.1) : FoundUncut text (some s, n) := by
  rintro t ⟨⟩
  exact ⟨hs, hn⟩

/-- A directive cuts no character, and its name and value are parts of the text. -/
theorem readDirective_uncut {name : String} {hm : mark < i} {hs : mark < stop}
    (hmark : IsBoundary text mark) (hi : IsBoundary text i) (hstop : IsBoundary text stop)
    (hname : IsPart text name) :
    Answers (readDirective (Bytes.ofText text) mark name i stop hm hs) (FoundUncut text) := by
  have hline : IsBoundary text (upTo (Bytes.ofText text) [0x0A] i stop hm hs).1 :=
    upTo_boundary (List.cons_ne_nil _ _) (by decide +kernel) hstop
  refine .bind (trimEnd_boundary hline) fun valueEnd hvalue => .pure (.some ?_ hline)
  exact .simple hmark hvalue
    (.directive hname fun v hv => isPart_of_mem_ite (isPart_trim hi hvalue) hv)

/-- **An expression ends at a border.** -/
theorem implicitEnd_boundary (hi : IsBoundary text i) (hs : IsBoundary text stop) :
    Answers (implicitEnd (Bytes.ofText text) i stop) (IsBoundary text ·.1) := by
  induction hn : stop - i using Nat.strongRecOn generalizing i with
  | ind n ih =>
    rw [implicitEnd]
    split
    · refine .bind byteAt_eq fun b hb => ?_
      refine .bind byteAfter_eq fun following hfollowing => ?_
      split
      · next hdot =>
        obtain rfl := beq_iff_eq.mp (Bool.and_eq_true_iff.mp hdot).1
        refine .bind (identifierEnd_boundary (.succ_ascii hb (by decide)) hs) ?_
        rintro ⟨m, hm⟩ hword
        refine .bind (ih _ (by omega) hword rfl) ?_
        rintro ⟨k, hk⟩ hend
        exact .pure hend
      · refine .bind (p := fun starts => starts = true → following = 0x2E) ?_
          fun starts hstarts => ?_
        · split
          · next hoptional =>
            exact Answers.any.mono fun _ _ _ =>
              beq_iff_eq.mp (Bool.and_eq_true_iff.mp hoptional).2
          · exact .pure fun h => absurd h Bool.false_ne_true
        split
        · next hword =>
          obtain rfl := hstarts hword
          refine .bind (identifierEnd_boundary
            (.succ_ascii (hfollowing (by decide)).2 (by decide)) hs) ?_
          rintro ⟨m, hm⟩ hword
          refine .bind (ih _ (by omega) hword rfl) ?_
          rintro ⟨k, hk⟩ hend
          exact .pure hend
        · split
          · refine .bind closing_boundary ?_
            rintro ⟨close, h₁, h₂⟩ ⟨-, hclose⟩
            refine .bind (ih _ (by omega) hclose rfl) ?_
            rintro ⟨k, hk⟩ hend
            exact .pure hend
          · exact .pure hi
    · exact .ok hi

/-- An implicit expression cuts no character, and what it shows is part of the text. -/
theorem readImplicit_uncut {word : String} {hm : mark < i} (hmark : IsBoundary text mark)
    (hbehind : IsBoundary text (mark + 1)) (hi : IsBoundary text i) (hs : IsBoundary text stop) :
    Answers (readImplicit (Bytes.ofText text) mark word i stop hm) (FoundUncut text) := by
  refine .bind (p := (IsBoundary text ·.1)) ?_ ?_
  · split
    · refine .bind (skipBlanks_boundary hi) ?_
      rintro ⟨operand, h₁⟩ hoperand
      refine .bind .any fun starts _ => ?_
      split
      · refine .bind (identifierEnd_boundary hoperand hs) ?_
        rintro ⟨n, h₂⟩ hn
        exact .pure hn
      · exact .pure hi
    · exact .pure hi
  · rintro ⟨i, hi⟩ hword
    refine .bind .any fun equals _ => ?_
    refine .bind .any fun minus _ => ?_
    refine .bind .any fun colon _ => ?_
    split
    · exact .pure .none
    · refine .bind (implicitEnd_boundary hword hs) ?_
      rintro ⟨n, h₁⟩ hn
      exact .pure (.some (.simple hmark hn (.implicitExpression (textOf_isPart hbehind hn))) hn)

/-- A block of members cuts no character. -/
theorem readMembers_uncut {word : String} {hm : mark < i} (hmark : IsBoundary text mark)
    (hword : IsPart text word) :
    Answers (readMembers (Bytes.ofText text) mark word i stop hm)
      (∀ r ∈ ·, r.1.Uncut text ∧ IsBoundary text r.2.1) := by
  rw [readMembers]
  split
  · refine .bind .any ?_
    rintro ⟨brace, h₁⟩ -
    refine .bind isAt_eq fun opens hopens => ?_
    split
    · next hat =>
      refine .bind closing_boundary ?_
      rintro ⟨close, h₂, h₃⟩ ⟨hclose, hbehind⟩
      refine .pure ?_
      rintro r ⟨⟩
      have hopen := IsBoundary.succ_ascii (hopens hat) (by decide)
      refine ⟨⟨⟨hmark, hbehind⟩, ?_, fun _ hrun => absurd hrun List.not_mem_nil, .codeBlock ?_⟩,
        hbehind⟩
      · exact List.forall_mem_singleton.mpr ⟨hopen, hclose⟩
      · rintro v ⟨⟩
        exact hword
    · exact .pure fun _ h => absurd h (Option.not_mem_none _)
  · exact .pure fun _ h => absurd h (Option.not_mem_none _)

/-! ## Constructs and runs -/

/-- The statement of `splitFrom_uncut` for a stretch that is no longer than `n`. -/
def SplitUncutUpTo (text : String) (n : Nat) : Prop :=
  ∀ cursor stop statement, stop - cursor ≤ n → IsBoundary text stop →
    Answers (splitFrom (Bytes.ofText text) cursor stop statement) (∀ run ∈ ·, run.Uncut text)

/-- The runs of the bodies of a control statement. -/
theorem bodyRuns_uncut {word : String} {n : Nat} (hsplit : ∀ m, m < n → SplitUncutUpTo text m)
    (hn : stop - mark ≤ n) (h : mark < stop) {bodies : List (Body mark stop)}
    (hb : ∀ body ∈ bodies, body.1.Uncut text) :
    Answers
      (bodies.mapM fun ⟨r, _⟩ =>
        if word = "section" then return [r] else splitFrom (Bytes.ofText text) r.start r.stop true)
      (List.Forall₂ (fun _ runs => ∀ run ∈ runs, run.Uncut text) bodies) := by
  refine .mapM ?_
  rintro ⟨r, hlow, hhigh⟩ hr
  dsimp only
  split
  · exact .pure (List.forall_mem_singleton.mpr (hb _ hr))
  · exact hsplit (n - 1) (by omega) _ _ _ (by omega) (hb _ hr).stop

/-- What holds of the runs of each body holds of all of them. -/
theorem forall_runs {α : Type} {p : Range → Prop} {l : List α} {runs : List (List Range)}
    (h : List.Forall₂ (fun _ runs => ∀ run ∈ runs, p run) l runs) :
    ∀ run ∈ runs.flatten, p run := by
  induction h with
  | nil => exact fun _ hrun => nomatch hrun
  | cons hruns _ ih =>
    intro run hrun
    rw [List.flatten_cons, List.mem_append] at hrun
    exact hrun.elim (hruns run) (ih run)

/-- **One construct**, if the stretches of code inside it are split between characters. -/
theorem readTransition_uncut_of {n : Nat} (hsplit : ∀ m, m < n → SplitUncutUpTo text m)
    (hn : stop - mark ≤ n) (hat : (Bytes.ofText text)[mark]? = some 0x40)
    (hs : IsBoundary text stop) :
    Answers (readTransition (Bytes.ofText text) mark stop) (FoundUncut text) := by
  have hmark : IsBoundary text mark := .at_ascii hat (by decide)
  have hbehind : IsBoundary text (mark + 1) := .succ_ascii hat (by decide)
  rw [readTransition]
  refine .bind .any fun embedded _ => ?_
  split
  · exact .pure .none
  · split
    · next hlt =>
      refine .bind byteAt_eq fun b hb => ?_
      split
      · exact .pure .none
      · split
        -- a comment
        · next hstar =>
          obtain rfl := beq_iff_eq.mp hstar
          split
          · next close hclose =>
            have hopen : IsBoundary text (mark + 2) := .succ_ascii hb (by decide)
            obtain ⟨hinner, hend⟩ := find_boundary (List.cons_ne_nil _ _) (by decide +kernel) hclose
            exact .pure (.some (.simple hmark hend (.comment (isPart_trim hopen hinner))) hend)
          · exact .throw
        · split
          -- a block
          · next hbrace =>
            obtain rfl := beq_iff_eq.mp hbrace
            have hopen : IsBoundary text (mark + 2) := .succ_ascii hb (by decide)
            refine .bind closing_boundary ?_
            rintro ⟨close, h₁, h₂⟩ ⟨hclose, hend⟩
            refine .bind (hsplit (n - 1) (by omega) (mark + 2) close true (by omega) hclose)
              fun markup hmarkup => ?_
            refine .pure (.some ⟨⟨hmark, hend⟩, ?_, hmarkup, .codeBlock fun v hv => ?_⟩ hend)
            · exact List.forall_mem_singleton.mpr ⟨hopen, hclose⟩
            · exact absurd hv (Option.not_mem_none v)
          · split
            -- an expression in parentheses
            · next hparen =>
              obtain rfl := beq_iff_eq.mp hparen
              have hopen : IsBoundary text (mark + 2) := .succ_ascii hb (by decide)
              refine .bind closing_boundary ?_
              rintro ⟨close, h₁, h₂⟩ ⟨hclose, hend⟩
              exact .pure (.some (.simple hmark hend
                (.explicitExpression (isPart_trim hopen hclose))) hend)
            -- a word: it announces members, a control statement or a directive, or is
            -- itself an expression
            · refine .bind (wordAt_boundary hbehind hs) ?_
              rintro ⟨word, wordEnd, hw⟩ ⟨hword, hi⟩
              dsimp only at hword hi ⊢
              split
              · exact .pure .none
              · refine .bind (readMembers_uncut hmark hword) fun members hmembers => ?_
                split
                · next segment m =>
                  exact .pure (.some (hmembers _ rfl).1 (hmembers _ rfl).2)
                · refine .bind (readControl_uncut hi hs hword) fun head hhead => ?_
                  split
                  · next construct bodies finish =>
                    obtain ⟨hshows, hbodies, hfinish⟩ := hhead _ rfl
                    refine .bind (bodyRuns_uncut hsplit hn (by omega) hbodies) fun runs hruns => ?_
                    refine .pure (.some ⟨⟨hmark, hfinish⟩, ?_, forall_runs hruns, hshows⟩ hfinish)
                    exact List.forall_mem_map.mpr hbodies
                  · split
                    · exact readDirective_uncut hmark hi hs hword
                    · exact readImplicit_uncut hmark hbehind hi hs
    · exact .pure .none

/-- A stretch of code, if one construct inside it is read between characters. -/
theorem splitUncutUpTo_of {n : Nat} (hsplit : ∀ m, m < n → SplitUncutUpTo text m) :
    SplitUncutUpTo text n := by
  intro cursor stop statement hn hs
  rw [splitFrom]
  split
  · next hc =>
    have later : ∀ {m} {st : Bool}, cursor < m →
        Answers (splitFrom (Bytes.ofText text) m stop st) (∀ run ∈ ·, run.Uncut text) :=
      fun hlt => hsplit (n - 1) (by omega) _ _ _ (by omega) hs
    have found : ∀ {m} {st : Bool}, cursor < m → Range.Uncut text ⟨cursor, m⟩ →
        Answers (do return ⟨cursor, m⟩ :: (← splitFrom (Bytes.ofText text) m stop st))
          (∀ run ∈ ·, run.Uncut text) := fun hlt hrun =>
      .bind (later hlt) fun runs hruns => .pure (List.forall_mem_cons.mpr ⟨hrun, hruns⟩)
    refine .bind byteAt_eq fun b hb => ?_
    refine .bind .any fun following _ => ?_
    split
    · exact later (Nat.lt_succ_self _)
    · split
      · exact later (pastOrStop _ _ _ _ (Nat.le_refl _) hc).2
      · split
        · exact later (pastOrStop _ _ _ _ (Nat.le_succ _) hc).2
        · split
          -- an element and a line of markup are runs, and so is a construct
          · next htag =>
            obtain rfl := beq_iff_eq.mp (Bool.and_eq_true_iff.mp (Bool.and_eq_true_iff.mp htag).1).2
            refine .bind (elementEnd_boundary hs) ?_
            rintro ⟨m, hm⟩ hend
            exact found (by omega) ⟨.at_ascii hb (by decide), hend⟩
          · split
            · next hline =>
              obtain rfl :=
                beq_iff_eq.mp (Bool.and_eq_true_iff.mp (Bool.and_eq_true_iff.mp hline).1).2
              have hend : IsBoundary text
                  (upTo (Bytes.ofText text) [0x0A] (cursor + 1) stop (Nat.le_refl _) hc).1 :=
                upTo_boundary (List.cons_ne_nil _ _) (by decide +kernel) hs
              exact found (upTo _ _ _ _ (Nat.le_refl _) hc).2 ⟨.at_ascii hb (by decide), hend⟩
            · refine .bind (p := fun r => r.1.isSome → Range.Uncut text ⟨cursor, r.2.1⟩) ?_ ?_
              · split
                · next hread =>
                  obtain rfl :=
                    beq_iff_eq.mp (Bool.and_eq_true_iff.mp (Bool.and_eq_true_iff.mp hread).1).2
                  refine (readTransition_uncut_of hsplit hn hb hs).mono fun r hr hsome => ?_
                  obtain ⟨s, heq⟩ := Option.isSome_iff_exists.mp hsome
                  exact ⟨.at_ascii hb (by decide), (hr s heq).2⟩
                · exact .pure fun h => absurd h Bool.false_ne_true
              · rintro ⟨segment, next, hnext⟩ hread
                dsimp only at hread ⊢
                split
                · next hsome => exact found hnext (hread hsome)
                · refine .bind .any ?_
                  rintro ⟨m, hm⟩ -
                  exact later hm
  · exact .ok fun _ hrun => absurd hrun List.not_mem_nil

/-- **Splitting code cuts no character**, at every length of the code. -/
theorem splitUncutUpTo (text : String) (n : Nat) : SplitUncutUpTo text n := by
  induction n using Nat.strongRecOn with
  | ind n ih => exact splitUncutUpTo_of ih

/-- **What is read at a transition** cuts no character. -/
theorem readTransition_uncut (hat : (Bytes.ofText text)[mark]? = some 0x40)
    (hs : IsBoundary text stop) :
    Answers (readTransition (Bytes.ofText text) mark stop) (FoundUncut text) :=
  readTransition_uncut_of (fun m _ => splitUncutUpTo text m) (Nat.le_refl _) hat hs

open Segment (preorderAll allSegments_eq)

/-- **The constructs of a stretch of markup** cut no character, at every level. -/
theorem segments_uncut (text : String) {cursor stop : Nat} (hs : IsBoundary text stop) :
    Answers (segments (Bytes.ofText text) cursor stop)
      fun found => ∀ s ∈ preorderAll found, s.Uncut text := by
  induction hn : stop - cursor using Nat.strongRecOn generalizing cursor stop with
  | ind n ih =>
    rw [segments]
    split
    · split
      · exact .ok (by simp)
      · next mark hmark =>
        have hbounds := Bytes.find_bounds hmark
        have hlen : mark + 1 ≤ stop := hbounds.2.1
        have hat := Bytes.hasAt_singleton.mp (Bytes.find_eq_some_iff.mp hmark).1.2.2
        refine .bind (readTransition_uncut hat hs) ?_
        rintro ⟨segment?, next, hnext⟩ hread
        have later : Answers (segments (Bytes.ofText text) next stop)
            fun found => ∀ s ∈ preorderAll found, s.Uncut text := ih _ (by omega) hs rfl
        dsimp only at hread ⊢
        split
        · exact later
        · next s =>
          have hs' := (hread s rfl).1
          have hgroups : Answers (s.markup.mapM fun run =>
              if mark < run.start ∧ run.stop ≤ stop then
                segments (Bytes.ofText text) run.start run.stop
              else return []) (List.Forall₂ (fun _ group => ∀ t ∈ preorderAll group, t.Uncut text)
                s.markup) := by
            refine .mapM fun run hrun => ?_
            split
            · exact ih _ (by omega) (hs'.runs run hrun).stop rfl
            · exact .pure (by simp)
          refine .bind hgroups fun groups hgroups => ?_
          refine .bind later fun rest hrest => .pure fun t ht => ?_
          rw [Segment.preorderAll_cons, Segment.preorder_eq, List.cons_append, List.mem_cons,
            List.mem_append] at ht
          rcases ht with rfl | ht | ht
          · exact ⟨hs'.range, hs'.parts, hs'.runs, hs'.shows⟩
          · exact forall_groups hgroups t ht
          · exact hrest t ht
    · exact .ok (by simp)

/-! ## Views -/

/-- A character is in a range that cuts none, or out of it. -/
theorem Range.Uncut.has_add {r : Range} (h : r.Uncut text) {before after : List Char} {c : Char}
    (hsplit : text.toList = before ++ c :: after) {k : Nat}
    (hk : k < (String.utf8EncodeChar c).length) :
    r.has ((Bytes.ofChars before).length + k) = r.has (Bytes.ofChars before).length := by
  have hstart := h.start.le_or_le hsplit
  have hstop := h.stop.le_or_le hsplit
  rw [Bool.eq_iff_iff, Range.has_iff, Range.has_iff]
  omega

/-- What is changed character by character is a text again. -/
theorem exists_mapIdx {f : Nat → UInt8 → UInt8} {chars : List Char}
    (h : ∀ before c after, chars = before ++ c :: after → ∃ shown : List Char,
      ((String.utf8EncodeChar c).mapIdx fun k => f ((Bytes.ofChars before).length + k))
        = Bytes.ofChars shown) :
    ∃ view : List Char, (Bytes.ofChars chars).mapIdx f = Bytes.ofChars view := by
  induction chars using List.reverseRecOn with
  | nil => exact ⟨[], rfl⟩
  | append_singleton chars c ih =>
    obtain ⟨view, hview⟩ := ih fun before d after hsplit =>
      h before d (after ++ [c]) (by rw [hsplit, List.append_assoc, List.cons_append])
    obtain ⟨shown, hshown⟩ := h chars c [] rfl
    refine ⟨view ++ shown, ?_⟩
    rw [Bytes.ofChars_append, Bytes.ofChars_singleton, List.mapIdx_append, hview, Bytes.ofChars_append, ← hshown]
    simp only [Nat.add_comm]

/-- The bytes of spaces are spaces. -/
theorem ofChars_replicate (n : Nat) :
    Bytes.ofChars (List.replicate n ' ') = List.replicate n 0x20 := by
  induction n with
  | zero => rfl
  | succ n ih =>
    rw [List.replicate_succ, Bytes.ofChars_cons, ih]
    rfl

/-- **A text with some ranges blanked is a text**, if the ranges cut no character. -/
theorem exists_blankRanges {ranges : List Range} (h : ∀ r ∈ ranges, r.Uncut text) :
    ∃ view : String, blankRanges (Bytes.ofText text) ranges = Bytes.ofText view := by
  have hview : ∃ view : List Char, (Bytes.ofChars text.toList).mapIdx
      (fun i b => if b ≠ Bytes.newline ∧ ranges.any (·.has i) then 0x20 else b)
        = Bytes.ofChars view := by
    refine exists_mapIdx fun before c after hsplit => ?_
    have hany : ∀ k, k < (String.utf8EncodeChar c).length →
        (ranges.any (·.has ((Bytes.ofChars before).length + k)))
          = ranges.any (·.has (Bytes.ofChars before).length) := by
      intro k hk
      rw [Bool.eq_iff_iff, List.any_eq_true, List.any_eq_true]
      exact exists_congr fun r => and_congr_right fun hr => by rw [(h r hr).has_add hsplit hk]
    by_cases hhidden : ranges.any (·.has (Bytes.ofChars before).length) = true ∧ c ≠ '\n'
    · refine ⟨List.replicate (String.utf8EncodeChar c).length ' ', ?_⟩
      rw [ofChars_replicate]
      refine List.ext_getElem (by simp) fun k h₁ h₂ => ?_
      have hk : k < (String.utf8EncodeChar c).length := by simpa using h₁
      have hline : (String.utf8EncodeChar c)[k] ≠ Bytes.newline := by
        intro heq
        have hin := List.getElem_mem hk
        rw [heq] at hin
        exact not_mem_utf8EncodeChar (d := '\n') (by decide) hhidden.2 hin
      rw [List.getElem_mapIdx, List.getElem_replicate, hany k hk]
      exact if_pos ⟨hline, hhidden.1⟩
    · refine ⟨[c], ?_⟩
      rw [Bytes.ofChars_singleton]
      refine List.ext_getElem (by simp) fun k h₁ hk => ?_
      rw [List.getElem_mapIdx, hany k hk]
      refine if_neg fun hblank => hhidden ⟨hblank.2, ?_⟩
      rintro rfl
      obtain rfl : k = 0 := Nat.lt_one_iff.mp hk
      exact hblank.1 rfl
  obtain ⟨view, hview⟩ := hview
  refine ⟨String.ofList view, ?_⟩
  rw [Bytes.ofText_ofList, ← hview, Bytes.ofText_eq, blankRanges, List.mapIdx_toArray]

/-- What runs leave of a range is cut where they are. -/
theorem gaps_uncut {runs : List Range} (hi : IsBoundary text i) (hs : IsBoundary text stop)
    (hruns : ∀ run ∈ runs, run.Uncut text) : ∀ r ∈ Segment.gaps i stop runs, r.Uncut text := by
  induction runs generalizing i with
  | nil =>
    intro r hr
    rw [Segment.gaps] at hr
    split at hr
    · exact List.mem_singleton.mp hr ▸ ⟨hi, hs⟩
    · cases hr
  | cons run runs ih =>
    obtain ⟨hrun, hruns⟩ := List.forall_mem_cons.mp hruns
    intro r hr
    rw [Segment.gaps, List.mem_append] at hr
    rcases hr with hr | hr
    · split at hr
      · exact List.mem_singleton.mp hr ▸ ⟨hi, hrun.start⟩
      · cases hr
    · exact ih hrun.stop hruns r hr

/-- **What a construct hides from the markup** cuts no character. -/
theorem Segment.Uncut.hidden {s : Segment} (h : s.Uncut text) :
    ∀ r ∈ s.hidden (Bytes.ofText text), r.Uncut text := by
  intro r hr
  rcases List.mem_append.mp hr with hr | hr
  · exact gaps_uncut h.range.start h.range.stop h.runs r hr
  · obtain ⟨run, hrun, rfl⟩ := List.mem_map.mp hr
    obtain ⟨hmem, hmark⟩ := List.mem_filter.mp hrun
    have hat : (Bytes.ofText text).Spells [0x40, 0x3A] run.start := hmark
    exact ⟨(h.runs run hmem).start, .succ_ascii hat.tail.head (by decide)⟩

/-- **The scanner never cuts a character.** Each construct, its content, its bodies and its runs of
markup begin and end between characters of the source, the texts that a construct shows are parts
of the source, and the view of the markup is a text again. -/
theorem scan_uncut {scanned : List Segment} (h : scan (Bytes.ofText text) = .ok scanned) :
    (∀ s ∈ allSegments scanned, s.Uncut text)
      ∧ ∃ view : String, markupView (Bytes.ofText text) scanned = Bytes.ofText view := by
  have huncut : ∀ s ∈ allSegments scanned, s.Uncut text := by
    rw [allSegments_eq]
    exact segments_uncut text .size scanned h
  refine ⟨huncut, exists_blankRanges fun r hr => ?_⟩
  obtain ⟨s, hs, hr⟩ := List.mem_flatMap.mp hr
  exact (huncut s hs).hidden r hr

/-- A block with a run that holds an expression, and characters of two and three bytes around
everything. -/
def accents : String := "é @\x7bé=1;<p>ü @ö.ñ</p>\x7d→"

/-- An expression in the markup of a block, among characters of several bytes. -/
theorem scan_uncut_accents : ∃ scanned, scan (Bytes.ofText accents) = .ok scanned
    ∧ (allSegments scanned).map (fun s => (s.construct, s.range, s.markup))
        = [(.codeBlock none, ⟨3, 27⟩, [⟨10, 26⟩]), (.implicitExpression "ö.ñ", ⟨16, 22⟩, [])]
    ∧ (∀ s ∈ allSegments scanned, s.Uncut accents)
    ∧ ∃ view : String, markupView (Bytes.ofText accents) scanned = Bytes.ofText view := by
  have hrun : (scan (Bytes.ofText accents)).map
      (fun scanned => (allSegments scanned).map fun s => (s.construct, s.range, s.markup))
        = .ok [(.codeBlock none, ⟨3, 27⟩, [⟨10, 26⟩]),
            (.implicitExpression "ö.ñ", ⟨16, 22⟩, [])] := by
    decide +kernel
  obtain ⟨scanned, hscan, hfound⟩ := Answers.exists_of_map hrun
  exact ⟨scanned, hscan, hfound, (scan_uncut hscan).1, (scan_uncut hscan).2⟩

end SyntaxForest.Template
