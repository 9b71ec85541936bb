import SyntaxForest.Proofs.Template.Layout

/-!
# Bodies end at a closing brace

The content of a block and the bodies of a control statement stand between braces
(`Segment.Closed`). The scanner finds their ends by counting brackets, and the bracket that
brings the count to zero is the one that closes the kind of bracket it began with
(`closingFrom_closer`). So there is no newline right behind a part of the code, which is why a
wrapper may be closed there by one byte more.
-/

namespace SyntaxForest.Template

open Lexical
open Segment (preorderAll)

variable {src : Bytes} {i stop mark : Nat}

/-! ## Brackets -/

theorem byteAt_eq : Answers (byteAt src i) fun b => src[i]? = some b := by
  unfold byteAt
  split
  · next b hb => exact .ok hb
  · exact .error

theorem isAt_eq {b : UInt8} :
    Answers (isAt src b i stop) fun found => found = true → src[i]? = some b := by
  rw [isAt]
  split
  · exact .bind byteAt_eq fun c hc => .pure fun heq => hc.trans (congrArg some (beq_iff_eq.mp heq))
  · exact .ok (by simp)

/-- **The search stops at a closing bracket**, and if nothing else is open. -/
theorem bracketStep_closer {k : Bracket} {depth : Nat} (h : i < stop) :
    Answers (bracketStep src k stop depth i h)
      fun r => r = none → src[i]? = some k.closer ∧ depth ≤ 1 := by
  have hgoes : ∀ r : AtLeast (i + 1) × Nat, Answers (pure (some r) : Scan _)
      fun r => r = none → src[i]? = some k.closer ∧ depth ≤ 1 := fun r =>
    .pure fun heq => absurd heq (Option.some_ne_none r)
  refine .bind byteAt_eq fun b hb => ?_
  refine .bind .any fun following _ => ?_
  split
  · exact .bind .any fun n _ => hgoes _
  · split
    · exact hgoes _
    · split
      · exact .bind .any fun n _ => hgoes _
      · split
        · split
          · exact hgoes _
          · exact .throw
        · split
          · exact hgoes _
          · split
            · exact hgoes _
            · split
              · exact hgoes _
              · split
                · next hcloser =>
                  split
                  · next hdepth =>
                    exact .pure fun _ =>
                      ⟨hb.trans (congrArg some (beq_iff_eq.mp hcloser)), hdepth⟩
                  · exact hgoes _
                · exact hgoes _

/-- Where the search ends there is the closing bracket. -/
theorem closingFrom_closer {k : Bracket} {opening depth : Nat} :
    Answers (closingFrom src k opening stop depth i) fun n => src[n.1]? = some k.closer := by
  induction hn : stop - i using Nat.strongRecOn generalizing i depth with
  | ind n ih =>
    rw [closingFrom]
    split
    · refine .bind (bracketStep_closer _) fun r hr => ?_
      split
      · exact .pure (hr rfl).1
      · refine .bind (ih _ (by omega) rfl) ?_
        rintro ⟨m, hm, hlt⟩ hcloser
        exact .pure hcloser
    · exact .error

/-- **What a brace opens, a brace closes.** -/
theorem closing_brace (h : src[i]? = some 0x7B) :
    Answers (closing src i stop) fun n => src[n.1]? = some 0x7D := by
  refine .bind byteAt_eq fun b hb => ?_
  obtain rfl : 0x7B = b := Option.some.inj (h.symm.trans hb)
  refine .bind closingFrom_closer ?_
  rintro ⟨n, hn⟩ hcloser
  exact .pure hcloser

/-! ## Constructs -/

/-- **Each part of a construct ends at a closing brace.** -/
def Segment.Closed (src : Bytes) (s : Segment) : Prop :=
  ∀ part ∈ s.parts, src[part.stop]? = some 0x7D

theorem Segment.closed_simple (construct : Construct) (start finish : Nat) :
    (Segment.simple construct start finish).Closed src := fun _ hpart => nomatch hpart

/-- The body of every clause ends at a brace. -/
theorem clauses_closed {keyword : String} {low : Nat} {hlow : low ≤ i} :
    Answers (clauses src keyword low stop i hlow)
      fun r => ∀ body ∈ r.1, src[body.1.stop]? = some 0x7D := by
  induction hn : stop - i using Nat.strongRecOn generalizing i with
  | ind n ih =>
    rw [clauses]
    refine .bind .any ?_
    rintro ⟨start, h₁⟩ -
    refine .bind .any ?_
    rintro ⟨clause, clauseEnd, h₂⟩ -
    dsimp only
    split
    · refine .bind .any ?_
      rintro ⟨cursor, h₃⟩ -
      dsimp only
      split
      · refine .bind .any fun semicolon _ => ?_
        split <;> exact .pure (by simp)
      · refine .bind isAt_eq fun opens hopens => ?_
        split
        · next hat =>
          refine .bind (closing_brace (hopens hat)) ?_
          rintro ⟨close, h₄, h₅⟩ hclose
          refine .bind (ih _ (by omega) rfl) ?_
          rintro ⟨rest, m, h₆⟩ hrest
          exact .pure (List.forall_mem_cons.mpr ⟨hclose, hrest⟩)
        · exact .pure (by simp)
    · exact .pure (by simp)

/-- **Every body of a control statement** ends at a brace. -/
theorem readControl_closed {keyword : String} {hm : mark < i} :
    Answers (readControl src mark keyword i stop hm)
      (∀ head ∈ ·, ∀ body ∈ head.bodies, src[body.1.stop]? = some 0x7D) := by
  refine .bind .any fun opens _ => ?_
  split
  · refine .bind .any fun r _ => ?_
    split
    · exact .pure (by simp)
    · refine .bind isAt_eq fun brace hbrace => ?_
      split
      · next hat =>
        refine .bind (closing_brace (hbrace hat)) ?_
        rintro ⟨close, h₂, h₃⟩ hclose
        refine .bind clauses_closed ?_
        rintro ⟨rest, n, h₄⟩ hrest
        refine .pure ?_
        rintro head ⟨⟩
        exact List.forall_mem_cons.mpr ⟨hclose, hrest⟩
      · exact .pure (by simp)
  · exact .pure (by simp)

/-- The members of a block end at a brace. -/
theorem readMembers_closed {word : String} {hi : mark < i} :
    Answers (readMembers src mark word i stop hi) (∀ r ∈ ·, r.1.Closed src) := by
  rw [readMembers]
  split
  · refine .bind .any ?_
    rintro ⟨brace, h₁⟩ -
    refine .bind isAt_eq fun opens hopens => ?_
    split
    · next hat =>
      refine .bind (closing_brace (hopens hat)) ?_
      rintro ⟨close, h₂, h₃⟩ hclose
      refine .pure ?_
      rintro r ⟨⟩
      exact List.forall_mem_singleton.mpr hclose
    · exact .pure (by simp)
  · exact .pure (by simp)

theorem readDirective_closed {name : String} {hi : mark < i} {hs : mark < stop} :
    Answers (readDirective src mark name i stop hi hs) (∀ s ∈ ·.1, s.Closed src) := by
  refine .bind .any fun valueEnd _ => .pure ?_
  rintro s ⟨⟩
  exact Segment.closed_simple _ _ _

theorem readImplicit_closed {word : String} {hi : mark < i} :
    Answers (readImplicit src mark word i stop hi) (∀ s ∈ ·.1, s.Closed src) := by
  refine .bind .any ?_
  rintro ⟨i, hi⟩ -
  refine .bind .any fun equals _ => ?_
  refine .bind .any fun minus _ => ?_
  refine .bind .any fun colon _ => ?_
  split
  · exact .pure (by simp)
  · refine .bind .any ?_
    rintro ⟨n, h₁⟩ -
    refine .pure ?_
    rintro s ⟨⟩
    exact Segment.closed_simple _ _ _

/-- **What is read at a transition** has its content and its bodies closed by brackets, and so has
what is nested in it. -/
theorem readTransition_closed :
    Answers (readTransition src mark stop) (∀ s ∈ ·.1, s.Closed src) := by
  rw [readTransition]
  refine .bind .any fun embedded _ => ?_
  split
  · exact .pure (by simp)
  · split
    · refine .bind byteAt_eq fun b hb => ?_
      split
      · exact .pure (by simp)
      · split
        -- a comment
        · split
          · refine .pure ?_
            rintro s ⟨⟩
            exact Segment.closed_simple _ _ _
          · exact .throw
        · split
          -- a block
          · next hbrace =>
            have hopen : src[mark + 1]? = some 0x7B :=
              hb.trans (congrArg some (beq_iff_eq.mp hbrace))
            refine .bind (closing_brace hopen) ?_
            rintro ⟨close, h₁, h₂⟩ hclose
            refine .bind .any fun markup _ => .pure ?_
            rintro s ⟨⟩
            exact List.forall_mem_singleton.mpr hclose
          · split
            -- an expression in parentheses
            · refine .bind .any ?_
              rintro ⟨close, h₁, h₂⟩ -
              refine .pure ?_
              rintro s ⟨⟩
              exact Segment.closed_simple _ _ _
            -- a word
            · refine .bind .any ?_
              rintro ⟨word, wordEnd, hw⟩ -
              dsimp only
              split
              · exact .pure (by simp)
              · refine .bind readMembers_closed fun members hmembers => ?_
                split
                · next segment n =>
                  refine .pure ?_
                  rintro s ⟨⟩
                  exact hmembers _ rfl
                · refine .bind readControl_closed fun head hhead => ?_
                  split
                  · next construct bodies finish =>
                    refine .bind .any fun runs _ => .pure ?_
                    rintro s ⟨⟩
                    exact List.forall_mem_map.mpr (hhead _ rfl)
                  · split
                    · exact readDirective_closed
                    · exact readImplicit_closed
    · exact .pure (by simp)

/-- **All parts of the code of a template end at closing braces.** -/
theorem segments_closed (src : Bytes) (cursor stop : Nat) :
    Answers (segments src cursor stop) fun found => ∀ s ∈ preorderAll found, s.Closed src := by
  induction hn : stop - cursor using Nat.strongRecOn generalizing cursor stop with
  | ind n ih =>
    rw [segments]
    split
    · split
      · exact .ok (by simp)
      · next mark hmark =>
        have hb := Bytes.find_bounds hmark
        have hlen : mark + 1 ≤ stop := hb.2.1
        refine .bind readTransition_closed ?_
        rintro ⟨segment?, next, hnext⟩ hread
        have later := ih _ (by omega) next stop rfl
        dsimp only at hread ⊢
        split
        · exact later
        · next s =>
          have hgroups : Answers (s.markup.mapM fun run =>
              if mark < run.start ∧ run.stop ≤ stop then segments src run.start run.stop
              else return []) (List.Forall₂ (fun _ group => ∀ t ∈ preorderAll group, t.Closed src)
                s.markup) := by
            refine .mapM fun run _ => ?_
            split
            · exact ih _ (by omega) _ _ rfl
            · exact .pure (by simp)
          refine .bind hgroups fun groups hgroups => ?_
          refine .bind later fun rest hrest => .pure fun t ht => ?_
          rw [Segment.preorderAll_cons, Segment.preorder_eq, List.cons_append, List.mem_cons,
            List.mem_append] at ht
          rcases ht with rfl | ht | ht
          · exact hread s rfl
          · exact forall_groups hgroups t ht
          · exact hrest t ht
    · exact .ok (by simp)

end SyntaxForest.Template
