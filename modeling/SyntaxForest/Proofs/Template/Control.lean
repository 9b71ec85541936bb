import SyntaxForest.Proofs.Template.Expressions

/-!
# Control statements

A control statement is a chain of blocks: the first one behind its keyword, then the clauses that
its keyword lets follow. A chain is described by its text (`ControlChain`), and read as one
construct (`readTransition_control`): with the first condition, with each of the bodies in order,
and up to the last brace, if what follows does not go on with another clause (`Continues`). The
condition behind `do` ends its chain, and the chain takes the semicolon with it.

Between a word and what belongs to it there may be blanks. So the text behind each of the words is
of one form, blanks around a condition or without one (`Header`), and the rule that reads what
stands behind a keyword and the one for what stands behind the word of a clause both pass it
whole.
-/

namespace SyntaxForest.Template

open Lexical

variable {src : Bytes} {text rest : List UInt8} {b : UInt8} {i stop mark : Nat}
variable {keyword clause : String} {condition? : Option (List UInt8)}

/-! ## The text of a chain -/

/-- **Blanks**, tabs and ends of lines, any number of them. -/
def IsBlanks (text : List UInt8) : Prop := ∀ b ∈ text, Bytes.isBlank b = true

instance (text : List UInt8) : Decidable (IsBlanks text) :=
  inferInstanceAs (Decidable (∀ b ∈ text, _))

/-- **What stands between a word and a brace**: blanks, and a condition in parentheses or none. -/
inductive Header : List UInt8 → Option (List UInt8) → Prop
  | bare {s : List UInt8} : IsBlanks s → Header s none
  | condition {s inner t : List UInt8} : IsBlanks s → Bracket.round.Content inner 0x29 →
      IsBlanks t → Header (s ++ 0x28 :: (inner ++ 0x29 :: t)) (some inner)

/-- **What stands between the word of a clause and its brace.** -/
inductive ClauseHeader : (keyword clause : String) → List UInt8 → Prop
  | elseIf {s t inner : List UInt8} : IsBlanks s → s ≠ [] → Header t (some inner) →
      ClauseHeader "if" "else" (s ++ (Bytes.ofAscii "if" ++ t))
  | otherwise {s : List UInt8} : Header s none → ClauseHeader "if" "else" s
  | handler {s : List UInt8} {inner? : Option (List UInt8)} : Header s inner? →
      ClauseHeader "try" "catch" s
  | last {s : List UInt8} : Header s none → ClauseHeader "try" "finally" s

/-- **The clauses behind a body** that ended at an offset, with the ranges of their bodies. -/
inductive Clauses (keyword : String) : Nat → List UInt8 → List Range → Prop
  | nil {i : Nat} : Clauses keyword i [] []
  | cons {i start : Nat} {s head body rest : List UInt8} {clause : String} {bodies : List Range} :
      IsBlanks s → ClauseHeader keyword clause head → Bracket.curly.Content body 0x7D →
      start = i + s.length + (Bytes.ofAscii clause).length + head.length + 1 →
      Clauses keyword (start + body.length + 1) rest bodies →
      Clauses keyword i (s ++ (Bytes.ofAscii clause ++ (head ++ 0x7B :: (body ++ 0x7D :: rest))))
        (⟨start, start + body.length⟩ :: bodies)

/-- **A control statement behind its keyword**, which ended at an offset: its first condition,
its text and the ranges of its bodies. -/
inductive ControlChain :
    (keyword : String) → Option (List UInt8) → Nat → List UInt8 → List Range → Prop
  | block {i start : Nat} {keyword : String} {condition? : Option (List UInt8)}
      {head body rest : List UInt8} {bodies : List Range} :
      keyword = "if" ∧ condition?.isSome = true ∨ keyword = "try" ∧ condition? = none →
      Header head condition? → Bracket.curly.Content body 0x7D →
      start = i + head.length + 1 → Clauses keyword (start + body.length + 1) rest bodies →
      ControlChain keyword condition? i (head ++ 0x7B :: (body ++ 0x7D :: rest))
        (⟨start, start + body.length⟩ :: bodies)
  | loop {i start : Nat} {head body s tail inner : List UInt8} :
      Header head none → Bracket.curly.Content body 0x7D → start = i + head.length + 1 →
      IsBlanks s → Header tail (some inner) →
      ControlChain "do" none i
        (head ++ 0x7B :: (body ++ 0x7D :: (s ++ (Bytes.ofAscii "while" ++ (tail ++ [0x3B])))))
        [⟨start, start + body.length⟩]

/-- **A text goes on with a clause**: behind its blanks stands a word that announces one. -/
def Continues (keyword : String) (rest : List UInt8) : Prop :=
  Text.Utf8.decodeLenient (Bytes.leadingWord (rest.dropWhile Bytes.isBlank)).toArray
    ∈ continuations keyword

instance (keyword : String) (rest : List UInt8) : Decidable (Continues keyword rest) :=
  inferInstanceAs (Decidable (_ ∈ continuations keyword))

/-! ## Headers -/

theorem not_inWord_of_isBlank (h : Bytes.isBlank b = true) : Bytes.inWord b = false := by
  simp only [Bytes.isBlank, Bool.or_eq_true, beq_iff_eq] at h
  rcases h with ((rfl | rfl) | rfl) | rfl <;> decide

/-- A byte that ends a header: a brace, or the semicolon behind a loop. -/
def EndsHeader (b : UInt8) : Prop := b = 0x7B ∨ b = 0x3B

namespace EndsHeader

theorem not_blank (h : EndsHeader b) : Bytes.isBlank b = false := by
  rcases h with rfl | rfl <;> decide

theorem not_starts (h : EndsHeader b) : Bytes.startsWord b = false := by
  rcases h with rfl | rfl <;> decide

/-- What ends a header stands in no word. -/
theorem not_inWord (h : EndsHeader b) : Bytes.inWord b = false := by
  rcases h with rfl | rfl <;> decide

theorem ne_paren (h : EndsHeader b) : b ≠ 0x28 := by
  rcases h with rfl | rfl <;> decide

end EndsHeader

/-- Blanks are skipped up to a byte that is none. -/
theorem IsBlanks.skip {s : List UInt8} (hs : IsBlanks s) (h : src.Fills (s ++ b :: rest) i stop)
    (hb : Bytes.isBlank b = false) :
    skipBlanks src i stop = .ok ⟨i + s.length, Nat.le_add_right _ _⟩ :=
  h.skipWhile_append hs fun _ hc => Option.some.inj hc ▸ hb

/-- Blanks are skipped up to a word. -/
theorem IsBlanks.skip_word {s word : List UInt8} (hs : IsBlanks s) (hword : IsIdentifier word)
    (h : src.Fills (s ++ (word ++ rest)) i stop) :
    skipBlanks src i stop = .ok ⟨i + s.length, Nat.le_add_right _ _⟩ := by
  obtain ⟨b, more, rfl, hb⟩ := hword.exists_cons
  refine hs.skip h (Bool.eq_false_iff.mpr fun hblank => ?_)
  have hin := inWord_of_startsWord hb
  rw [not_inWord_of_isBlank hblank] at hin
  exact Bool.false_ne_true hin

/-- An answer whose position is known. -/
theorem exists_of_map {x : Scan (AtLeast i)} {n : Nat} (h : x.map (·.1) = .ok n) :
    ∃ hn, x = .ok ⟨n, hn⟩ := by
  cases x with
  | error e => cases h
  | ok m =>
    obtain ⟨m, hm⟩ := m
    obtain rfl := Except.ok.inj h
    exact ⟨hm, rfl⟩

namespace Header

variable {head : List UInt8}

/-- **A header is passed** behind the word of a clause. -/
theorem clauseHead (hh : Header head condition?) (hb : EndsHeader b)
    (h : src.Fills (head ++ b :: rest) i stop) :
    (Template.clauseHead src clause i stop).map (·.1) = .ok (i + head.length) := by
  cases hh with
  | @bare s hs =>
    have hword : wordAt src (i + head.length) stop = .ok ("", .here _) :=
      wordAt_of_not_starts h.behind.1.head hb.not_starts
    have hopens : isAt src 0x28 (i + head.length) stop = .ok false :=
      h.behind.isAt.trans (congrArg Except.ok (beq_eq_false_iff_ne.mpr
        fun heq => hb.ne_paren (Option.some.inj heq)))
    rw [Template.clauseHead, bind_of_eq (hs.skip h hb.not_blank)]
    refine (congrArg _ (bind_of_eq (a := .here _) ?_ _)).trans ?_
    · split
      · exact (bind_of_eq hword _).trans (if_neg (by decide))
      · rfl
    · exact congrArg _ (bind_of_eq hopens _)
  | @condition s inner t hs hinner ht =>
    have htext : s ++ 0x28 :: (inner ++ 0x29 :: t) ++ b :: rest
        = s ++ 0x28 :: (inner ++ 0x29 :: (t ++ b :: rest)) := by
      simp only [List.append_assoc, List.cons_append]
    have hlen : i + s.length + 1 + inner.length + 1 + t.length
        = i + (s ++ 0x28 :: (inner ++ 0x29 :: t)).length := by
      simp only [List.length_append, List.length_cons]
      omega
    rw [htext] at h
    have hword : wordAt src (i + s.length) stop = .ok ("", .here _) :=
      wordAt_of_not_starts h.behind.1.head (by decide)
    have hopens : isAt src 0x28 (i + s.length) stop = .ok true := h.behind.isAt
    obtain ⟨⟨_, _⟩, hclose⟩ := h.behind.closing (k := .round) hinner
    have hblanks := ht.skip h.behind.tail.behind.tail hb.not_blank
    rw [Template.clauseHead, bind_of_eq (hs.skip h (by decide))]
    refine (congrArg _ (bind_of_eq (a := .here _) ?_ _)).trans ?_
    · split
      · exact (bind_of_eq hword _).trans (if_neg (by decide))
      · rfl
    · refine (congrArg _ (bind_of_eq hopens _)).trans ?_
      refine (congrArg _ (bind_of_eq hclose _)).trans ?_
      refine (congrArg _ (bind_of_eq hblanks _)).trans ?_
      exact congrArg Except.ok hlen

/-- **A header is passed** behind a keyword, and its condition is read. -/
theorem controlCondition? (hh : Header head condition?) (hb : EndsHeader b)
    (h : src.Fills (head ++ b :: rest) i stop) (hsection : keyword ≠ "section")
    (hbare : condition? = none → keyword = "try" ∨ keyword = "do") :
    ∃ hn, Template.controlCondition? src keyword i stop
      = .ok (some (.control keyword
          (condition?.map fun inner => Text.trim (Text.Utf8.decodeLenient inner.toArray)),
          ⟨i + head.length, hn⟩)) := by
  cases hh with
  | bare hs =>
    have hopens : isAt src 0x28 (i + head.length) stop = .ok false :=
      h.behind.isAt.trans (congrArg Except.ok (beq_eq_false_iff_ne.mpr
        fun heq => hb.ne_paren (Option.some.inj heq)))
    refine ⟨Nat.le_add_right _ _, ?_⟩
    rw [Template.controlCondition?, bind_of_eq (hs.skip h hb.not_blank)]
    refine (if_neg hsection).trans ?_
    refine (bind_of_eq hopens _).trans ?_
    exact if_pos (hbare rfl)
  | @condition s inner t hs hinner ht =>
    have htext : s ++ 0x28 :: (inner ++ 0x29 :: t) ++ b :: rest
        = s ++ 0x28 :: (inner ++ 0x29 :: (t ++ b :: rest)) := by
      simp only [List.append_assoc, List.cons_append]
    have hlen : i + s.length + 1 + inner.length + 1 + t.length
        = i + (s ++ 0x28 :: (inner ++ 0x29 :: t)).length := by
      simp only [List.length_append, List.length_cons]
      omega
    rw [htext] at h
    have hopens : isAt src 0x28 (i + s.length) stop = .ok true := h.behind.isAt
    obtain ⟨⟨_, _⟩, hclose⟩ := h.behind.closing (k := .round) hinner
    have hblanks := ht.skip h.behind.tail.behind.tail hb.not_blank
    have hinside : textOf src (i + s.length + 1) (i + s.length + 1 + inner.length)
        = Text.Utf8.decodeLenient inner.toArray := by
      rw [textOf, h.behind.tail.1.left.slice_eq]
    refine ⟨Nat.le_add_right _ _, ?_⟩
    rw [Template.controlCondition?, bind_of_eq (hs.skip h (by decide))]
    refine (if_neg hsection).trans ?_
    refine (bind_of_eq hopens _).trans ?_
    refine (bind_of_eq hclose _).trans ?_
    refine (bind_of_eq hblanks _).trans ?_
    refine congrArg (fun r => Except.ok (some r)) (Prod.ext ?_ (Subtype.ext hlen))
    exact congrArg (fun inside => Construct.control keyword (some (Text.trim inside))) hinside

/-- A header begins with no byte of a word. -/
theorem not_inWord (hh : Header head condition?) (hb : EndsHeader b) :
    ∀ c ∈ (head ++ b :: rest).head?, Bytes.inWord c = false := by
  have hblanks : ∀ {s : List UInt8} {d : UInt8} {later : List UInt8}, IsBlanks s →
      Bytes.inWord d = false → ∀ c ∈ (s ++ d :: later).head?, Bytes.inWord c = false := by
    rintro (_ | ⟨c, s⟩) d later hs hd _ ⟨⟩
    · exact hd
    · exact not_inWord_of_isBlank (hs c (List.mem_cons_self ..))
  cases hh with
  | bare hs => exact hblanks hs hb.not_inWord
  | condition hs _ _ =>
    rw [List.append_assoc, List.cons_append]
    exact hblanks hs (by decide)

end Header

/-! ## Clauses -/

/-- Two scans that go on from one answer in like ways. -/
theorem map_bind_congr {ε α β γ δ : Type} {x : Except ε α} {f : α → Except ε β}
    {g : α → Except ε γ} {p : β → δ} {q : γ → δ} (h : ∀ a, (f a).map p = (g a).map q) :
    (x >>= f).map p = (x >>= g).map q := by
  cases x with
  | error e => rfl
  | ok a => exact h a

/-- Behind `else`, an `if` is passed with the blanks around it. -/
theorem clauseHead_elseIf {cursor : AtLeast i} {nestedEnd : AtLeast cursor.1}
    {n : AtLeast nestedEnd.1} (hcursor : skipBlanks src i stop = .ok cursor)
    (hword : wordAt src cursor.1 stop = .ok ("if", nestedEnd))
    (hn : skipBlanks src nestedEnd.1 stop = .ok n) :
    (clauseHead src "else" i stop).map (·.1) = (clauseHead src "" nestedEnd.1 stop).map (·.1) := by
  rw [clauseHead, bind_of_eq hcursor, clauseHead, bind_of_eq hn]
  refine (congrArg _ (bind_of_eq (a := ⟨n.1, Nat.le_trans nestedEnd.2 n.2⟩) ?_ _)).trans ?_
  · refine (if_pos rfl).trans ?_
    refine (bind_of_eq hword _).trans ?_
    exact (if_pos rfl).trans (bind_of_eq hn _)
  · refine map_bind_congr (x := isAt src 0x28 n.1 stop) fun opens => ?_
    cases opens with
    | false => rfl
    | true => exact map_bind_congr fun close => map_bind_congr fun m => rfl

/-- A word of a control statement is read where its bytes stand. -/
theorem wordAt_ofAscii (word : String) (hword : IsIdentifier (Bytes.ofAscii word))
    (hdecode : Text.Utf8.decodeLenient (Bytes.ofAscii word).toArray = word)
    (h : src.Fills (Bytes.ofAscii word ++ rest) i stop)
    (hrest : ∀ b ∈ rest.head?, Bytes.inWord b = false) :
    wordAt src i stop = .ok (word, ⟨i + (Bytes.ofAscii word).length, Nat.le_add_right _ _⟩) := by
  rw [h.wordAt]
  simp only [hword.leadingWord_append hrest, hdecode]

namespace ClauseHeader

variable {head : List UInt8}

/-- The word of a clause announces one, and reads as itself. -/
theorem word (hh : ClauseHeader keyword clause head) :
    clause ∈ continuations keyword ∧ keyword ≠ "do" ∧ IsIdentifier (Bytes.ofAscii clause)
      ∧ Text.Utf8.decodeLenient (Bytes.ofAscii clause).toArray = clause := by
  cases hh with
  | elseIf _ _ _ | otherwise _ | handler _ | last _ =>
    exact ⟨by decide +kernel, by decide +kernel, ⟨by decide +kernel, by decide +kernel⟩,
      by decide +kernel⟩

theorem not_inWord (hh : ClauseHeader keyword clause head) (hb : EndsHeader b) :
    ∀ c ∈ (head ++ b :: rest).head?, Bytes.inWord c = false := by
  cases hh with
  | @elseIf s t inner hs hne ht =>
    cases s with
    | nil => exact absurd rfl hne
    | cons c s =>
      rintro _ ⟨⟩
      exact not_inWord_of_isBlank (hs c (List.mem_cons_self ..))
  | otherwise hs | handler hs | last hs => exact hs.not_inWord hb

/-- **What stands between the word of a clause and its brace is passed.** -/
theorem clauseHead (hh : ClauseHeader keyword clause head) (hb : EndsHeader b)
    (h : src.Fills (head ++ b :: rest) i stop) :
    (Template.clauseHead src clause i stop).map (·.1) = .ok (i + head.length) := by
  cases hh with
  | @elseIf s t inner hs hne ht =>
    have htext : s ++ (Bytes.ofAscii "if" ++ t) ++ b :: rest
        = s ++ (Bytes.ofAscii "if" ++ (t ++ b :: rest)) := by
      simp only [List.append_assoc]
    have hlen : i + s.length + (Bytes.ofAscii "if").length + t.length
        = i + (s ++ (Bytes.ofAscii "if" ++ t)).length := by
      simp only [List.length_append]
      omega
    rw [htext] at h
    have hword := wordAt_ofAscii "if" ⟨by decide, by decide +kernel⟩ (by decide +kernel)
      h.behind (ht.not_inWord hb)
    rw [clauseHead_elseIf (hs.skip h (by decide)) hword h.behind.behind.skipWhile, ← hlen]
    exact ht.clauseHead hb h.behind.behind
  | otherwise hs | handler hs | last hs => exact hs.clauseHead hb h

end ClauseHeader

/-- Where no clause follows, the chain ends. -/
theorem clauses_stop {low : Nat} {hlow : low ≤ i} (h : src.Fills rest i stop)
    (hend : ¬ Continues keyword rest) :
    clauses src keyword low stop i hlow = .ok ([], .here i) := by
  have hsplit : src.Fills (rest.takeWhile Bytes.isBlank ++ rest.dropWhile Bytes.isBlank) i stop := by
    rwa [List.takeWhile_append_dropWhile]
  rw [clauses, skipBlanks, bind_of_eq h.skipWhile]
  refine (bind_of_eq hsplit.behind.wordAt _).trans ?_
  exact if_neg fun hin => hend (List.contains_iff_mem.mp hin)

/-- **The clauses are read**, all of them, up to a text that does not go on with another. -/
theorem Clauses.read {low : Nat} {hlow : low ≤ i} {bodies : List Range}
    (hc : Clauses keyword i text bodies) (h : src.Fills (text ++ rest) i stop)
    (hend : ¬ Continues keyword rest) :
    (clauses src keyword low stop i hlow).map (fun r => (r.1.map (·.1), r.2.1))
      = .ok (bodies, i + text.length) := by
  induction hc with
  | nil =>
    rw [clauses_stop h hend]
    rfl
  | @cons i start s head body tail clause bodies hs hh hbody hstart hc ih =>
    have htext : s ++ (Bytes.ofAscii clause ++ (head ++ 0x7B :: (body ++ 0x7D :: tail))) ++ rest
        = s ++ (Bytes.ofAscii clause ++ (head ++ 0x7B :: (body ++ 0x7D :: (tail ++ rest)))) := by
      simp only [List.append_assoc, List.cons_append]
    have hlen : start + body.length + 1 + tail.length
        = i + (s ++ (Bytes.ofAscii clause ++ (head ++ 0x7B :: (body ++ 0x7D :: tail)))).length := by
      simp only [List.length_append, List.length_cons, hstart]
      omega
    rw [htext] at h
    obtain ⟨hin, hdo, hword, hdecode⟩ := hh.word
    have hat := h.behind.behind.behind
    have hclause := wordAt_ofAscii clause hword hdecode h.behind (hh.not_inWord (.inl rfl))
    obtain ⟨hn, hhead⟩ := exists_of_map (hh.clauseHead (.inl rfl) h.behind.behind)
    obtain ⟨⟨_, _⟩, hclose⟩ := hat.closing (k := .curly) hbody
    rw [clauses, bind_of_eq (hs.skip_word hword h)]
    refine (congrArg _ (bind_of_eq hclause _)).trans ?_
    refine (congrArg _ (if_pos (List.contains_iff_mem.mpr hin))).trans ?_
    refine (congrArg _ (bind_of_eq hhead _)).trans ?_
    refine (congrArg _ (if_neg hdo)).trans ?_
    refine (congrArg _ (bind_of_eq hat.isAt _)).trans ?_
    refine (congrArg _ (if_pos rfl)).trans ?_
    refine (congrArg _ (bind_of_eq hclose _)).trans ?_
    have hlater : low ≤ start + body.length + 1 := by omega
    have hrest := @ih hlater (hstart ▸ hat.tail.behind.tail)
    cases htail : clauses src keyword low stop (start + body.length + 1) hlater with
    | error e =>
      rw [htail] at hrest
      cases hrest
    | ok r =>
      rw [htail] at hrest
      obtain ⟨later, n, hn⟩ := r
      obtain ⟨rfl, rfl⟩ := Prod.mk.inj (Except.ok.inj hrest)
      subst hstart
      refine (congrArg _ (bind_of_eq htail _)).trans ?_
      rw [← hlen]
      rfl

/-- **The condition behind `do` ends the chain**, with its semicolon. -/
theorem clauses_loop {low : Nat} {hlow : low ≤ i} {s tail inner : List UInt8} (hs : IsBlanks s)
    (htail : Header tail (some inner))
    (h : src.Fills (s ++ (Bytes.ofAscii "while" ++ (tail ++ 0x3B :: rest))) i stop) :
    (clauses src "do" low stop i hlow).map (fun r => (r.1.map (·.1), r.2.1))
      = .ok ([], i + s.length + (Bytes.ofAscii "while").length + tail.length + 1) := by
  have hword : IsIdentifier (Bytes.ofAscii "while") := ⟨by decide, by decide +kernel⟩
  have hclause := wordAt_ofAscii "while" hword (by decide +kernel) h.behind
    (htail.not_inWord (b := 0x3B) (.inr rfl))
  have hmap : (clauseHead src "while" (i + s.length + (Bytes.ofAscii "while").length) stop).map
      (·.1) = .ok _ := htail.clauseHead (.inr rfl) h.behind.behind
  obtain ⟨hn, hhead⟩ := exists_of_map hmap
  rw [clauses, bind_of_eq (hs.skip_word hword h)]
  refine (congrArg _ (bind_of_eq hclause _)).trans ?_
  refine (congrArg _ (bind_of_eq hhead _)).trans ?_
  exact congrArg _ (bind_of_eq h.behind.behind.behind.isAt _)

/-! ## Chains -/

/-- **A control statement is read** from the header on, if it is known how its clauses are. -/
theorem readControl_of_clauses {head body : List UInt8} {bodies : List Range} {finish : Nat}
    {hi : mark < i} (hkeyword : keyword ∈ ["if", "try", "do"])
    (hhead : Header head condition?) (hcondition : condition? = none → keyword ∈ ["try", "do"])
    (hbody : Bracket.curly.Content body 0x7D)
    (h : src.Fills (head ++ 0x7B :: (body ++ 0x7D :: rest)) i stop)
    (hclauses : ∀ hlow, (clauses src keyword mark stop
        (i + head.length + 1 + body.length + 1) hlow).map (fun r => (r.1.map (·.1), r.2.1))
      = .ok (bodies, finish)) :
    ∃ r, readControl src mark keyword i stop hi = .ok (some r)
      ∧ r.construct = .control keyword
          (condition?.map fun inner => Text.trim (Text.Utf8.decodeLenient inner.toArray))
      ∧ r.bodies.map (·.1)
          = ⟨i + head.length + 1, i + head.length + 1 + body.length⟩ :: bodies
      ∧ r.finish.1 = finish := by
  have hopens : opensControl src keyword i stop = .ok true := by
    simp only [List.mem_cons, List.not_mem_nil, or_false] at hkeyword
    rcases hkeyword with rfl | rfl | rfl <;> exact opensControl_of_ne (by decide)
  have hsection : keyword ≠ "section" := by
    rintro rfl
    exact absurd hkeyword (by decide)
  have hbare : condition? = none → keyword = "try" ∨ keyword = "do" := fun hnone => by
    simpa using hcondition hnone
  obtain ⟨_, hread⟩ := hhead.controlCondition? (.inl rfl) h hsection hbare
  obtain ⟨⟨_, _⟩, hclose⟩ := h.behind.closing (k := .curly) hbody
  have hlow : mark ≤ i + head.length + 1 + body.length + 1 := by omega
  have hrest := hclauses hlow
  cases htail : clauses src keyword mark stop (i + head.length + 1 + body.length + 1) hlow with
  | error e =>
    rw [htail] at hrest
    cases hrest
  | ok r =>
    rw [htail] at hrest
    obtain ⟨later, n, hn⟩ := r
    obtain ⟨rfl, rfl⟩ := Prod.mk.inj (Except.ok.inj hrest)
    have hbody : mark < i + head.length + 1 ∧ i + head.length + 1 + body.length < stop := by omega
    refine ⟨⟨_, ⟨⟨_, _⟩, hbody⟩ :: later, ⟨n, by omega⟩⟩, ?_, rfl, rfl, rfl⟩
    rw [readControl, bind_of_eq hopens]
    refine (if_pos rfl).trans ?_
    refine (bind_of_eq hread _).trans ?_
    refine (bind_of_eq h.behind.isAt _).trans ?_
    refine (if_pos rfl).trans ?_
    refine (bind_of_eq hclose _).trans ?_
    exact bind_of_eq htail _

/-- **A control statement is read behind its keyword**, as one chain. -/
theorem ControlChain.read {bodies : List Range}
    (hc : ControlChain keyword condition? i text bodies) (hi : mark < i) (h : src.Fills (text ++ rest) i stop)
    (hend : keyword ≠ "do" → ¬ Continues keyword rest) :
    ∃ r, readControl src mark keyword i stop hi = .ok (some r)
      ∧ r.construct = .control keyword
          (condition?.map fun inner => Text.trim (Text.Utf8.decodeLenient inner.toArray))
      ∧ r.bodies.map (·.1) = bodies ∧ r.finish.1 = i + text.length := by
  cases hc with
  | @block _ start _ _ head body tail bodies hkind hhead hbody hstart hclauses =>
    have htext : head ++ 0x7B :: (body ++ 0x7D :: tail) ++ rest
        = head ++ 0x7B :: (body ++ 0x7D :: (tail ++ rest)) := by
      simp only [List.append_assoc, List.cons_append]
    have hlen : i + head.length + 1 + body.length + 1 + tail.length
        = i + (head ++ 0x7B :: (body ++ 0x7D :: tail)).length := by
      simp only [List.length_append, List.length_cons]
      omega
    subst hstart
    rw [htext] at h
    rw [← hlen]
    have hread : keyword ≠ "do" → ∀ hlow, (clauses src keyword mark stop
        (i + head.length + 1 + body.length + 1) hlow).map (fun r => (r.1.map (·.1), r.2.1))
      = .ok (bodies, _) := fun hdo _ => hclauses.read h.behind.tail.behind.tail (hend hdo)
    obtain ⟨rfl, hsome⟩ | ⟨rfl, rfl⟩ := hkind
    · exact readControl_of_clauses (by decide) hhead (fun hnone => by simp [hnone] at hsome) hbody h
        (hread (by decide))
    · exact readControl_of_clauses (by decide) hhead (fun _ => by decide) hbody h
        (hread (by decide))
  | @loop _ start head body s tail inner hhead hbody hstart hs htail =>
    have htext : head ++ 0x7B :: (body ++ 0x7D :: (s ++ (Bytes.ofAscii "while"
          ++ (tail ++ [0x3B])))) ++ rest
        = head ++ 0x7B :: (body ++ 0x7D :: (s ++ (Bytes.ofAscii "while"
          ++ (tail ++ 0x3B :: rest)))) := by
      simp only [List.append_assoc, List.cons_append, List.nil_append]
    have hlen : i + head.length + 1 + body.length + 1 + s.length
          + (Bytes.ofAscii "while").length + tail.length + 1
        = i + (head ++ 0x7B :: (body ++ 0x7D :: (s ++ (Bytes.ofAscii "while"
          ++ (tail ++ [0x3B]))))).length := by
      simp only [List.length_append, List.length_cons, List.length_nil]
      omega
    subst hstart
    rw [htext] at h
    rw [← hlen]
    exact readControl_of_clauses (by decide) hhead (fun _ => by decide) hbody h
      fun _ => clauses_loop hs htail h.behind.tail.behind.tail

/-- The keyword of a chain opens a control statement, and reads as itself. -/
theorem ControlChain.opens {bodies : List Range}
    (hc : ControlChain keyword condition? i text bodies) :
    keyword ∉ memberKeywords ∧ keyword ≠ "section" ∧ IsIdentifier (Bytes.ofAscii keyword)
      ∧ Text.Utf8.decodeLenient (Bytes.ofAscii keyword).toArray = keyword := by
  have hkeyword : keyword = "if" ∨ keyword = "try" ∨ keyword = "do" := by
    cases hc with
    | block hkind _ _ _ _ => exact hkind.imp (·.1) fun h => .inl h.1
    | loop _ _ _ _ _ => exact .inr (.inr rfl)
  rcases hkeyword with rfl | rfl | rfl <;>
    exact ⟨by decide +kernel, by decide +kernel, ⟨by decide +kernel, by decide +kernel⟩,
      by decide +kernel⟩

/-- The keyword does not go on in what follows it. -/
theorem ControlChain.not_inWord {bodies : List Range}
    (hc : ControlChain keyword condition? i text bodies) :
    ∀ c ∈ (text ++ rest).head?, Bytes.inWord c = false := by
  cases hc with
  | block _ hhead _ _ _ | loop hhead _ _ _ _ =>
    rw [List.append_assoc, List.cons_append]
    exact hhead.not_inWord (.inl rfl)

/-- Cutting code stops at an unterminated construct only. -/
theorem splitCode_stops (hs : stop ≤ src.size) :
    StopsWith (Fault.NamesOpening src) (splitCode src i stop) :=
  splitStopsUpTo src _ _ _ _ (Nat.le_refl _) hs

/-- **A control chain is one block.** In front of a text that does not go on with a clause, a
chain is read as one control statement, with its keyword, its condition, its bodies in order and
the markup of each. It ends just past its last brace, or past the semicolon of a loop; and nothing
stops the reading but an unterminated construct in one of the bodies. -/
theorem readTransition_control {bodies : List Range}
    (hc : ControlChain keyword condition? (mark + 1 + (Bytes.ofAscii keyword).length) text bodies)
    (h : src.Fills (0x40 :: (Bytes.ofAscii keyword ++ (text ++ rest))) mark stop)
    (hfree : ¬ FollowsWord src mark) (hend : keyword ≠ "do" → ¬ Continues keyword rest) :
    (readTransition src mark stop).map (fun r => (r.1, r.2.1))
        = (bodies.mapM fun body => splitCode src body.start body.stop).map (fun runs =>
            (some { Segment.simple
                (.control keyword
                  (condition?.map fun inner => Text.trim (Text.Utf8.decodeLenient inner.toArray)))
                mark (mark + 1 + (Bytes.ofAscii keyword).length + text.length) with
              bodies, markup := runs.flatten },
            mark + 1 + (Bytes.ofAscii keyword).length + text.length))
      ∧ ∀ body ∈ bodies, StopsWith (Fault.NamesOpening src)
          (splitCode src body.start body.stop) := by
  obtain ⟨hmembers, hsection, hword, hdecode⟩ := hc.opens
  obtain ⟨hi, hin, hread⟩ := readTransition_word h hfree hword hc.not_inWord
  have hmembers' : readMembers src mark keyword (mark + 1 + (Bytes.ofAscii keyword).length) stop hi
      = .ok none := if_neg fun hin => hmembers (List.contains_iff_mem.mp hin)
  obtain ⟨⟨construct, bodies', finish⟩, hcontrol, hconstruct, hbodies, hfinish⟩ :=
    hc.read hi h.tail.behind hend
  dsimp only at hconstruct hbodies hfinish
  refine ⟨?_, ?_⟩
  · rw [hread, hdecode, readWord, bind_of_eq hmembers']
    refine (congrArg _ (bind_of_eq hcontrol _)).trans ?_
    subst hbodies
    rw [List.mapM_map, ← hconstruct, ← hfinish]
    refine (map_bind_of_eq fun _ => rfl).trans ?_
    exact congrArg (Except.map _) (congrArg (List.mapM · bodies')
      (funext fun body => if_neg hsection))
  · subst hbodies
    intro body hbody
    obtain ⟨⟨inner, _, (hinner : inner.stop < stop)⟩, -, rfl⟩ := List.mem_map.mp hbody
    exact splitCode_stops (Nat.le_trans (Nat.le_of_lt hinner) h.stop_le)

/-- The bytes of ` (")"){x}`, a line end and `else if(b){} else{y}`. -/
def elseChain : List UInt8 :=
  ([0x20] ++ 0x28 :: (([0x22, 0x29, 0x22] ++ []) ++ 0x29 :: [])) ++ 0x7B :: ([0x78] ++ 0x7D ::
    ([0x0A] ++ (Bytes.ofAscii "else" ++ (([0x20] ++ (Bytes.ofAscii "if"
        ++ ([] ++ 0x28 :: ([0x62] ++ 0x29 :: [])))) ++ 0x7B :: ([] ++ 0x7D ::
      ([0x20] ++ (Bytes.ofAscii "else" ++ ([] ++ 0x7B :: ([0x79] ++ 0x7D :: [])))))))))

/-- A bracket in a string, `else if` on a line of its own, and a word behind the chain that is no
clause: `@if (")"){x}⏎else if(b){} else{y} p`. -/
theorem readTransition_control_else :
    ControlChain "if" (some [0x22, 0x29, 0x22]) 3 elseChain [⟨10, 11⟩, ⟨24, 24⟩, ⟨31, 32⟩]
      ∧ Bytes.Fills (0x40 :: (Bytes.ofAscii "if" ++ (elseChain ++ [0x20, 0x70]))).toArray
          (0x40 :: (Bytes.ofAscii "if" ++ (elseChain ++ [0x20, 0x70]))) 0 35
      ∧ ¬ FollowsWord (0x40 :: (Bytes.ofAscii "if" ++ (elseChain ++ [0x20, 0x70]))).toArray 0
      ∧ ¬ Continues "if" [0x20, 0x70]
      ∧ (readTransition (0x40 :: (Bytes.ofAscii "if" ++ (elseChain ++ [0x20, 0x70]))).toArray
            0 35).map (fun r => (r.1, r.2.1))
          = .ok (some { Segment.simple (.control "if" (some "\")\"")) 0 33 with
              bodies := [⟨10, 11⟩, ⟨24, 24⟩, ⟨31, 32⟩] }, 33) := by
  have hstring : IsString [0x22, 0x29, 0x22] :=
    @IsString.quoted [0x29] (.byte (by decide) (by decide) (by decide) .nil)
  have hblank : IsBlanks [0x20] := by decide +kernel
  have hnone : IsBlanks [] := by decide +kernel
  have hbyte : ∀ {k : Bracket} {b next : UInt8}, b ∉ [0x22, 0x27, k.opener, k.closer] →
      ¬ OpenTogether b next → k.Content [b] next := fun hb hopen => .byte hb hopen .nil
  have hclauses : Clauses "if" 12 _ [⟨24, 24⟩, ⟨31, 32⟩] :=
    .cons (s := [0x0A]) (by decide +kernel)
      (.elseIf hblank (List.cons_ne_nil _ _)
        (.condition hnone (hbyte (b := 0x62) (by decide) (by decide)) hnone)) .nil rfl <|
      .cons hblank (.otherwise (.bare hnone)) (hbyte (b := 0x79) (by decide) (by decide)) rfl .nil
  have hchain : ControlChain "if" (some [0x22, 0x29, 0x22]) (0 + 1 + (Bytes.ofAscii "if").length)
      elseChain [⟨10, 11⟩, ⟨24, 24⟩, ⟨31, 32⟩] :=
    .block (.inl ⟨rfl, rfl⟩) (.condition hblank (.string hstring .nil) hnone)
      (hbyte (b := 0x78) (by decide) (by decide)) rfl hclauses
  have hfill : Bytes.Fills (0x40 :: (Bytes.ofAscii "if" ++ (elseChain ++ [0x20, 0x70]))).toArray
      (0x40 :: (Bytes.ofAscii "if" ++ (elseChain ++ [0x20, 0x70]))) 0 35 :=
    ⟨by decide +kernel, by decide +kernel⟩
  have hfree : ¬ FollowsWord
      (0x40 :: (Bytes.ofAscii "if" ++ (elseChain ++ [0x20, 0x70]))).toArray 0 := by decide
  have hend : ¬ Continues "if" [0x20, 0x70] := by decide +kernel
  have hruns : ([⟨10, 11⟩, ⟨24, 24⟩, ⟨31, 32⟩] : List Range).mapM (fun body => splitCode
      (0x40 :: (Bytes.ofAscii "if" ++ (elseChain ++ [0x20, 0x70]))).toArray body.start body.stop)
      = .ok [[], [], []] := by decide +kernel
  have hread := (readTransition_control hchain hfill hfree fun _ => hend).1
  rw [hruns] at hread
  have hcondition : Text.trim (Text.Utf8.decodeLenient [0x22, 0x29, 0x22].toArray) = "\")\"" := by
    decide +kernel
  refine ⟨hchain, hfill, hfree, hend, hread.trans ?_⟩
  exact congrArg (fun condition => Except.ok (some { Segment.simple
    (.control "if" (some condition)) 0 33 with bodies := [⟨10, 11⟩, ⟨24, 24⟩, ⟨31, 32⟩] }, 33))
    hcondition

end SyntaxForest.Template
