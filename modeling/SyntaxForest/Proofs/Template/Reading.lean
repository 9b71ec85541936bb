import SyntaxForest.Proofs.Template.Chain
import SyntaxForest.Proofs.Template.Extent

/-!
# What is read at a transition

`Segment.Read mark next s` is the joint invariant of the scanner's functions: the
construct `s` that is read at the offset `mark`, with scanning going on at `next`,
has its bodies in order inside it and its runs in order, each inside one body. The
rules for control statements, directives and expressions each keep their part of
it, and `readTransition_read` puts the parts together, by one induction over the
length of what is left that goes through `splitFrom` and `readTransition` alike.
-/

namespace SyntaxForest.Template

open Lexical Range

variable {src : Bytes} {i stop mark : Nat}

/-! ## Control statements -/

theorem clauseHead_le {clause : String} (h : i ≤ stop) :
    Answers (clauseHead src clause i stop) (·.1 ≤ stop) := by
  refine .bind (skipBlanks_le h) ?_
  rintro ⟨cursor, h₁⟩ hcursor
  refine .bind (p := (·.1 ≤ stop)) ?_ ?_
  · split
    · refine .bind (wordAt_le hcursor) ?_
      rintro ⟨nested, nestedEnd, h₂⟩ hnested
      dsimp only
      split
      · exact .bind (skipBlanks_le hnested) fun n hn => .pure hn
      · exact .pure hcursor
    · exact .pure hcursor
  · rintro ⟨cursor, h₂⟩ hcursor
    refine .bind .any fun opens _ => ?_
    split
    · refine .bind .any ?_
      rintro ⟨close, h₃, h₄⟩ -
      exact .bind (skipBlanks_le h₄) fun n hn => .pure hn
    · exact .pure hcursor

/-- The bodies of the clauses after a body stand in order behind it. -/
theorem clauses_chain {keyword : String} {low : Nat} {hlow : low ≤ i} (h : i ≤ stop) :
    Answers (clauses src keyword low stop i hlow)
      fun r => Chain i r.2.1 (r.1.map (·.1)) ∧ r.2.1 ≤ stop := by
  induction hn : stop - i using Nat.strongRecOn generalizing i with
  | ind n ih =>
    have hhere : Chain i (AtLeast.here i).1 [] ∧ (AtLeast.here i).1 ≤ stop :=
      ⟨Nat.le_refl i, h⟩
    rw [clauses]
    refine .bind (skipBlanks_le h) ?_
    rintro ⟨start, h₁⟩ hstart
    refine .bind (wordAt_le hstart) ?_
    rintro ⟨clause, clauseEnd, h₂⟩ hclause
    dsimp only at hclause ⊢
    split
    · refine .bind (clauseHead_le hclause) ?_
      rintro ⟨cursor, h₃⟩ hcursor
      dsimp only at hcursor ⊢
      split
      · refine .bind isAt_lt fun semicolon hsemicolon => ?_
        split
        · next hat =>
          have hlt := hsemicolon hat
          exact .pure ⟨by show i ≤ cursor + 1; omega, hlt⟩
        · exact .pure ⟨by show i ≤ cursor; omega, hcursor⟩
      · refine .bind .any fun opens _ => ?_
        split
        · refine .bind .any ?_
          rintro ⟨close, h₄, h₅⟩ -
          refine .bind (ih _ (by omega) h₅ rfl) ?_
          rintro ⟨rest, m, h₆⟩ ⟨hrest, hm⟩
          refine .pure ⟨⟨?_, ?_, ?_⟩, hm⟩
          · show i ≤ cursor + 1
            omega
          · show cursor + 1 ≤ close
            omega
          · exact hrest.mono (Nat.le_succ close) (Nat.le_refl m)
        · exact .pure hhere
    · exact .pure hhere

theorem controlCondition?_le {keyword : String} (h : i ≤ stop) :
    Answers (controlCondition? src keyword i stop) (∀ r ∈ ·, r.2.1 ≤ stop) := by
  refine .bind (skipBlanks_le h) ?_
  rintro ⟨cursor, h₁⟩ hcursor
  dsimp only at hcursor ⊢
  split
  · refine .bind (wordAt_le hcursor) ?_
    rintro ⟨name, nameEnd, h₂⟩ hname
    refine .bind (skipBlanks_le hname) ?_
    rintro ⟨n, h₃⟩ hn
    exact .pure (by simpa using hn)
  · refine .bind .any fun opens _ => ?_
    split
    · refine .bind .any ?_
      rintro ⟨close, h₂, h₃⟩ -
      refine .bind (skipBlanks_le h₃) ?_
      rintro ⟨n, h₄⟩ hn
      exact .pure (by simpa using hn)
    · split
      · exact .pure (by simpa using hcursor)
      · exact .pure (by simp)

/-- **The bodies of a control statement** stand in order between its keyword and
its end. -/
theorem readControl_chain {keyword : String} {hm : mark < i} (h : i ≤ stop) :
    Answers (readControl src mark keyword i stop hm) (∀ head ∈ ·,
      Chain (mark + 1) head.finish.1 (head.bodies.map (·.1)) ∧ head.finish.1 ≤ stop) := by
  refine .bind .any fun word _ => ?_
  split
  · refine .bind (controlCondition?_le h) fun r hr => ?_
    split
    · exact .pure (by simp)
    · next construct cursor h₁ =>
      refine .bind .any fun opens _ => ?_
      split
      · refine .bind .any ?_
        rintro ⟨close, h₂, h₃⟩ -
        refine .bind (clauses_chain (Nat.succ_le_of_lt h₃)) ?_
        rintro ⟨rest, n, h₄⟩ ⟨hrest, hn⟩
        refine .pure ?_
        rintro head ⟨⟩
        refine ⟨⟨?_, ?_, ?_⟩, hn⟩
        · show mark + 1 ≤ cursor + 1
          omega
        · show cursor + 1 ≤ close
          omega
        · exact hrest.mono (Nat.le_succ close) (Nat.le_refl n)
      · exact .pure (by simp)
  · exact .pure (by simp)

/-! ## Directives and expressions -/

theorem trimEnd_le {low : Nat} (h : low ≤ i) :
    Answers (trimEnd src low i) fun n => low ≤ n ∧ n ≤ i := by
  induction i with
  | zero => exact .ok ⟨h, Nat.le_refl 0⟩
  | succ n ih =>
    rw [trimEnd]
    split
    · next hlt =>
      refine .bind .any fun b _ => ?_
      split
      · exact (ih (Nat.le_of_lt_succ hlt)).mono fun m hm => ⟨hm.1, Nat.le_succ_of_le hm.2⟩
      · exact .pure ⟨h, Nat.le_refl _⟩
    · exact .pure ⟨h, Nat.le_refl _⟩

/-- An implicit expression ends inside the range. -/
theorem implicitEnd_le (src : Bytes) {i stop : Nat} (h : i ≤ stop) :
    Answers (implicitEnd src i stop) (·.1 ≤ stop) := by
  induction hn : stop - i using Nat.strongRecOn generalizing i with
  | ind n ih =>
    rw [implicitEnd]
    split
    · next hlt =>
      refine .bind .any fun b _ => ?_
      refine .bind .any fun following _ => ?_
      split
      · refine .bind (identifierEnd_le hlt) ?_
        rintro ⟨m, hm⟩ hle
        exact .bind (ih _ (by omega) hle rfl) fun k hk => .pure hk
      · refine .bind (p := fun found => found = true → i + 2 < stop) ?_ fun optional hopt => ?_
        · split
          · exact wordStartsAt_lt
          · exact .pure (by simp)
        · split
          · next hat =>
            refine .bind (identifierEnd_le (Nat.le_of_lt (hopt hat))) ?_
            rintro ⟨m, hm⟩ hle
            exact .bind (ih _ (by omega) hle rfl) fun k hk => .pure hk
          · split
            · refine .bind .any ?_
              rintro ⟨close, h₁, h₂⟩ -
              exact .bind (ih _ (by omega) h₂ rfl) fun k hk => .pure hk
            · exact .pure h
    · exact .ok h

/-! ## Constructs and runs -/

namespace Segment

/-- The ranges of a construct's code and bodies, the body of a named section
included. -/
def parts (s : Segment) : List Range := s.content.toList ++ s.bodies

/-- The range of a construct. -/
def range (s : Segment) : Range := ⟨s.start, s.stop⟩

/-- **A construct as it is read** at `mark`, with scanning going on at `next`. -/
structure Read (mark next : Nat) (s : Segment) : Prop where
  start_eq : s.start = mark
  stop_le : s.stop ≤ next
  parts_chain : Chain (mark + 1) s.stop s.parts
  runs_chain : Chain (mark + 1) s.stop s.markup
  runs_inside : ∀ run ∈ s.markup, ∃ part ∈ s.parts, run.within part = true

/-- A construct without bodies is read as soon as it is not empty. -/
theorem Read.simple {construct : Construct} {finish next : Nat} (h : mark < finish)
    (hn : finish ≤ next) : Read mark next (.simple construct mark finish) :=
  ⟨rfl, hn, h, h, fun _ hrun => nomatch hrun⟩

end Segment

/-- What is asked of the answer at a transition: the construct, if there is one, and
where scanning goes on. -/
def ReadTo (mark stop : Nat) (r : Option Segment × AtLeast (mark + 1)) : Prop :=
  (∀ s ∈ r.1, s.Read mark r.2.1) ∧ r.2.1 ≤ stop

/-- Scanning goes on without a construct. -/
theorem ReadTo.pass {n : AtLeast (mark + 1)} (h : n.1 ≤ stop) : ReadTo mark stop (none, n) :=
  ⟨fun _ hs => (nomatch hs), h⟩

theorem ReadTo.found {s : Segment} {n : AtLeast (mark + 1)} (hs : s.Read mark n.1)
    (h : n.1 ≤ stop) : ReadTo mark stop (some s, n) := by
  refine ⟨?_, h⟩
  rintro t ⟨⟩
  exact hs

/-- A directive is read inside the range. -/
theorem readDirective_read {name : String} {hi : mark < i} {hs : mark < stop} (h : i ≤ stop) :
    Answers (readDirective src mark name i stop hi hs) (ReadTo mark stop) := by
  refine .bind (trimEnd_le (le_upTo _ _ h)) fun valueEnd hvalue => ?_
  exact .pure (.found (.simple (Nat.lt_of_lt_of_le hi hvalue.1) hvalue.2) (upTo_le _ _))

/-- An implicit expression is read inside the range. -/
theorem readImplicit_read {word : String} {hi : mark < i} (h : i ≤ stop) :
    Answers (readImplicit src mark word i stop hi) (ReadTo mark stop) := by
  refine .bind (p := (·.1 ≤ stop)) ?_ ?_
  · split
    · refine .bind (skipBlanks_le h) ?_
      rintro ⟨operand, h₁⟩ hoperand
      refine .bind .any fun starts _ => ?_
      split
      · refine .bind (identifierEnd_le hoperand) ?_
        rintro ⟨n, h₂⟩ hn
        exact .pure hn
      · exact .pure h
    · exact .pure h
  · rintro ⟨i, hi⟩ hle
    refine .bind .any fun equals _ => ?_
    refine .bind .any fun minus _ => ?_
    refine .bind .any fun colon _ => ?_
    split
    · exact .pure (.pass hle)
    · refine .bind (implicitEnd_le src hle) ?_
      rintro ⟨n, h₁⟩ hn
      exact .pure (.found (.simple (by omega) (Nat.le_refl n)) hn)

/-- A block of members has its content inside its braces. -/
theorem readMembers_read {word : String} {hi : mark < i} (h : i ≤ stop) :
    Answers (readMembers src mark word i stop hi)
      (∀ r ∈ ·, r.1.Read mark r.2.1 ∧ r.2.1 ≤ stop) := by
  rw [readMembers]
  split
  · refine .bind (skipBlanks_le h) ?_
    rintro ⟨brace, h₁⟩ hbrace
    refine .bind .any fun opens _ => ?_
    split
    · refine .bind .any ?_
      rintro ⟨close, h₂, h₃⟩ -
      refine .pure ?_
      rintro r ⟨⟩
      refine ⟨⟨rfl, Nat.le_refl _, ?_, ?_, fun _ hrun => nomatch hrun⟩, h₃⟩
      · refine ⟨?_, ?_, Nat.le_succ close⟩
        · show mark + 1 ≤ brace + 1
          omega
        · show brace + 1 ≤ close
          omega
      · show mark + 1 ≤ close + 1
        omega
    · exact .pure (by simp)
  · exact .pure (by simp)

theorem codeStep_le {b following : UInt8} (h : i < stop) :
    Answers (codeStep src b following i stop) (·.1 ≤ stop) := by
  rw [codeStep]
  split
  · exact skipString_le h
  · split
    · exact .ok (skipChar_le h)
    · split
      · exact skipVerbatim_le h
      · exact .ok h

/-- The runs of one part are inside that part. -/
theorem runs_inside_of_chain {parts : List Range} {runs : List (List Range)}
    (h : List.Forall₂ (fun part rs => Chain part.start part.stop rs) parts runs) :
    ∀ run ∈ runs.flatten, ∃ part ∈ parts, run.within part = true := by
  induction h with
  | nil => exact fun _ hrun => nomatch hrun
  | @cons part rs parts runs hpart _ ih =>
    intro run hrun
    rw [List.flatten_cons, List.mem_append] at hrun
    rcases hrun with hrun | hrun
    · have hb := hpart.of_mem hrun
      exact ⟨part, List.mem_cons_self .., within_iff.mpr ⟨hb.1, hb.2.2⟩⟩
    · obtain ⟨p, hp, hw⟩ := ih run hrun
      exact ⟨p, List.mem_cons_of_mem _ hp, hw⟩

/-- The statement of `splitFrom_chain` for a stretch that is no longer than `n`. -/
def SplitsUpTo (src : Bytes) (n : Nat) : Prop :=
  ∀ cursor stop statement, stop - cursor ≤ n → cursor ≤ stop →
    Answers (splitFrom src cursor stop statement) (Chain cursor stop)

/-- The runs of the bodies of a control statement: the body of a named section is
one run. -/
theorem bodyRuns_chain {word : String} {n : Nat} (hsplit : ∀ m, m < n → SplitsUpTo src m)
    (hn : stop - mark ≤ n) {bodies : List (Body mark stop)}
    (hb : ∀ b ∈ bodies, b.1.start ≤ b.1.stop) :
    Answers
      (bodies.mapM fun ⟨r, _⟩ =>
        if word = "section" then return [r] else splitFrom src r.start r.stop true)
      (List.Forall₂ (fun b rs => Chain b.1.start b.1.stop rs) bodies) := by
  refine .mapM ?_
  rintro ⟨r, hlow, hhigh⟩ hr
  have hle := hb _ hr
  dsimp only at hle ⊢
  split
  · exact .pure ⟨Nat.le_refl _, hle, Nat.le_refl _⟩
  · exact hsplit (n - 1) (by omega) _ _ _ (by omega) hle

/-- A control statement with the runs of its bodies. -/
theorem read_control {construct : Construct} {bodies : List (Body mark stop)} {finish : Nat}
    {runs : List (List Range)} (hchain : Chain (mark + 1) finish (bodies.map (·.1)))
    (hruns : List.Forall₂ (fun b rs => Chain b.1.start b.1.stop rs) bodies runs) :
    Segment.Read mark finish
      { Segment.simple construct mark finish with
        bodies := bodies.map fun body => body.1
        markup := runs.flatten } := by
  have hflat : List.Forall₂ (fun (r : Range) rs => Chain r.start r.stop rs)
      (bodies.map (·.1)) runs := by
    rw [List.forall₂_map_left_iff]
    exact hruns
  exact ⟨rfl, Nat.le_refl _, hchain, hchain.flatten hflat, runs_inside_of_chain hflat⟩

/-- A block of code with the runs of its content. -/
theorem read_block {close : Nat} {runs : List Range} (hruns : Chain (mark + 2) close runs) :
    Segment.Read mark (close + 1)
      { Segment.simple (.codeBlock none) mark (close + 1) with
        content := some ⟨mark + 2, close⟩
        markup := runs } := by
  refine ⟨rfl, Nat.le_refl _, ?_, hruns.mono (Nat.le_succ _) (Nat.le_succ close), ?_⟩
  · exact ⟨Nat.le_succ _, hruns.le, Nat.le_succ close⟩
  · intro run hrun
    have hb := hruns.of_mem hrun
    refine ⟨⟨mark + 2, close⟩, List.mem_singleton.mpr rfl, ?_⟩
    exact within_iff.mpr ⟨hb.1, hb.2.2⟩

/-- **One construct**, if the stretches of code inside it are split into runs in
order. -/
theorem readTransition_read_of {n : Nat} (hsplit : ∀ m, m < n → SplitsUpTo src m)
    (hn : stop - mark ≤ n) (h : mark < stop) :
    Answers (readTransition src mark stop) (ReadTo mark stop) := by
  rw [readTransition]
  refine .bind .any fun embedded _ => ?_
  split
  · exact .pure (.pass h)
  · split
    · next hs =>
      refine .bind .any fun b _ => ?_
      split
      · exact .pure (.pass hs)
      · split
        -- a comment
        · split
          · next close hclose =>
            have hb := Bytes.find_bounds hclose
            have hend : close + 2 ≤ stop := hb.2.1
            exact .pure (.found (.simple (by omega) (Nat.le_refl _)) hend)
          · exact .throw
        · split
          -- a block: its content is shorter than the whole by the two bytes in front of it
          · refine .bind .any ?_
            rintro ⟨close, h₁, h₂⟩ -
            refine .bind (hsplit (n - 1) (by omega) (mark + 2) close true (by omega) h₁)
              fun markup hmarkup => ?_
            exact .pure (.found (read_block hmarkup) h₂)
          · split
            · refine .bind .any ?_
              rintro ⟨close, h₁, h₂⟩ -
              exact .pure (.found (.simple (by omega) (Nat.le_refl _)) h₂)
            -- a word: it announces members, a control statement or a directive, or is
            -- itself an expression
            · refine .bind (wordAt_le (Nat.le_of_lt hs)) ?_
              rintro ⟨word, wordEnd, hw⟩ hword
              dsimp only at hword ⊢
              split
              · exact .pure (.pass h)
              · refine .bind (readMembers_read hword) fun members hmembers => ?_
                split
                · next segment m =>
                  have hread := hmembers _ rfl
                  exact .pure (.found hread.1 hread.2)
                · refine .bind (readControl_chain hword) fun head hhead => ?_
                  split
                  · next construct bodies finish =>
                    obtain ⟨hchain, hfinish⟩ := hhead _ rfl
                    have hle : ∀ b ∈ bodies, b.1.start ≤ b.1.stop := fun b hb =>
                      (hchain.of_mem (List.mem_map_of_mem hb)).2.1
                    refine .bind (bodyRuns_chain hsplit hn hle) fun runs hruns => ?_
                    exact .pure (.found (read_control hchain hruns) hfinish)
                  · split
                    · exact readDirective_read hword
                    · exact readImplicit_read hword
    · exact .pure (.pass h)

/-- A stretch of code, if one construct inside it is read as it should be. -/
theorem splitsUpTo_of {n : Nat} (hsplit : ∀ m, m < n → SplitsUpTo src m) :
    SplitsUpTo src n := by
  intro cursor stop statement hn h
  rw [splitFrom]
  split
  · next hc =>
    have later : ∀ {m} {st : Bool}, cursor < m → m ≤ stop →
        Answers (splitFrom src m stop st) (Chain m stop) := fun hlt hle =>
      hsplit (n - 1) (by omega) _ _ _ (by omega) hle
    have pass : ∀ {m} {st : Bool}, cursor < m → m ≤ stop →
        Answers (splitFrom src m stop st) (Chain cursor stop) := fun hlt hle =>
      (later hlt hle).mono fun runs hruns => hruns.mono (Nat.le_of_lt hlt) (Nat.le_refl _)
    have found : ∀ {m} {st : Bool}, cursor < m → m ≤ stop →
        Answers (do return ⟨cursor, m⟩ :: (← splitFrom src m stop st)) (Chain cursor stop) :=
      fun hlt hle => .bind (later hlt hle) fun runs hruns =>
        .pure ⟨Nat.le_refl _, Nat.le_of_lt hlt, hruns⟩
    refine .bind .any fun b _ => ?_
    refine .bind .any fun following _ => ?_
    split
    · exact pass (Nat.lt_succ_self _) hc
    · split
      -- comments of either kind are passed
      · exact pass (pastOrStop _ _ _ _ (Nat.le_refl _) hc).2 (pastOrStop_le (Nat.le_refl _) hc)
      · split
        · exact pass (pastOrStop _ _ _ _ (Nat.le_succ _) hc).2 (pastOrStop_le (Nat.le_succ _) hc)
        · split
          -- an element and a line of markup are runs, and so is a construct
          · refine .bind elementEnd_le ?_
            rintro ⟨m, hm⟩ hle
            exact found (by omega) hle
          · split
            · exact found (upTo _ _ _ _ (Nat.le_refl _) hc).2 (upTo_le (Nat.le_refl _) hc)
            · refine .bind (p := ReadTo cursor stop) ?_ ?_
              · split
                · exact readTransition_read_of hsplit hn hc
                · exact .pure (.pass hc)
              · rintro ⟨segment, next, hnext⟩ ⟨-, hle⟩
                dsimp only at hle ⊢
                split
                · exact found hnext hle
                · refine .bind (codeStep_le hc) ?_
                  rintro ⟨m, hm⟩ hle
                  exact pass hm hle
  · exact .ok h

/-- **Splitting is a chain at every length**: a body is shorter than the code that it is part of. -/
theorem splitsUpTo (src : Bytes) (n : Nat) : SplitsUpTo src n := by
  induction n using Nat.strongRecOn with
  | ind n ih => exact splitsUpTo_of ih

/-- **The markup runs of a stretch of code** stand in order inside it. -/
theorem splitFrom_chain {cursor : Nat} {statement : Bool} (h : cursor ≤ stop) :
    Answers (splitFrom src cursor stop statement) (Chain cursor stop) :=
  splitsUpTo src _ cursor stop statement (Nat.le_refl _) h

/-- **What is read at a transition** is a construct that begins there, ends where
scanning goes on, and has its bodies and its runs in order inside it. -/
theorem readTransition_read (h : mark < stop) :
    Answers (readTransition src mark stop) (ReadTo mark stop) :=
  readTransition_read_of (fun m _ => splitsUpTo src m) (Nat.le_refl _) h

end SyntaxForest.Template
