import SyntaxForest.Proofs.Template.Escapes
import SyntaxForest.Proofs.Template.Rereading
import SyntaxForest.Proofs.Template.Window

/-!
# Implicit expressions

An implicit expression has no mark at its end. It is an identifier with suffixes (`Suffixes`):
member accesses, conditional ones, calls and indexers, and the scanner goes on as long as there
is one more. `readTransition_implicit` says that it goes exactly as far: in front of a text that
continues neither the last identifier (`SplitsWord`) nor the suffixes (`OpensSuffix`), the
expression is read up to that text, and a point or a question mark with no identifier behind it is
left to the markup.

Before that, the word behind the `@` has to come through the other readings of a word, as members,
a control statement or a directive. `readTransition_word` hands over to these.
-/

namespace SyntaxForest.Template

open Lexical

variable {src : Bytes} {text word rest : List UInt8} {b : UInt8} {i stop mark : Nat}

/-! ## Identifiers -/

/-- **An identifier.** -/
structure IsIdentifier (word : List UInt8) : Prop where
  starts : word.head?.any Bytes.startsWord = true
  all : ∀ b ∈ word, Bytes.inWord b = true

/-- **An identifier goes on** across the border between two texts. -/
def SplitsWord (text rest : List UInt8) : Prop :=
  text.getLast?.any Bytes.inWord = true ∧ rest.head?.any Bytes.inWord = true

namespace IsIdentifier

/-- An identifier begins as a word. -/
theorem exists_cons (h : IsIdentifier word) :
    ∃ b more, word = b :: more ∧ Bytes.startsWord b = true := by
  cases word with
  | nil => exact absurd h.starts Bool.false_ne_true
  | cons b more => exact ⟨b, more, rfl, h.starts⟩

theorem getLast?_any (h : IsIdentifier word) : word.getLast?.any Bytes.inWord = true := by
  obtain ⟨b, more, rfl, -⟩ := h.exists_cons
  rw [List.getLast?_eq_some_getLast (List.cons_ne_nil _ _), Option.any_some]
  exact h.all _ (List.getLast_mem _)

/-- What follows an identifier is no byte of it, if the identifier does not go on. -/
theorem not_inWord (h : IsIdentifier word) (hrest : ¬ SplitsWord word rest) :
    ∀ b ∈ rest.head?, Bytes.inWord b = false := by
  intro b hb
  refine Bool.eq_false_iff.mpr fun hword => hrest ⟨h.getLast?_any, ?_⟩
  rw [Option.mem_def.mp hb]
  exact hword

/-- An identifier is all of the word that begins with it, if no other byte of a word follows. -/
theorem leadingWord_append (h : IsIdentifier word)
    (hrest : ∀ b ∈ rest.head?, Bytes.inWord b = false) :
    Bytes.leadingWord (word ++ rest) = word := by
  have hstarts : (word ++ rest).head?.any Bytes.startsWord = true := by
    obtain ⟨b, more, rfl, hb⟩ := h.exists_cons
    exact hb
  rw [Bytes.leadingWord, if_pos hstarts, List.takeWhile_append_of_pos h.all]
  cases rest with
  | nil => exact List.append_nil _
  | cons b rest =>
    rw [List.takeWhile_cons_of_neg (ne_true_of_eq_false (hrest b rfl)), List.append_nil]

/-- **An identifier is passed whole.** -/
theorem identifierEnd (h : IsIdentifier word) (hat : src.Fills (word ++ rest) i stop)
    (hrest : ∀ b ∈ rest.head?, Bytes.inWord b = false) :
    Lexical.identifierEnd src i stop = .ok ⟨i + word.length, Nat.le_add_right _ _⟩ :=
  hat.skipWhile_append h.all hrest

end IsIdentifier

/-! ## Suffixes -/

/-- **The suffixes of an expression**: `.name`, `?.name`, `(…)` and `[…]`, any number of them. -/
inductive Suffixes : List UInt8 → Prop
  | nil : Suffixes []
  | member {word rest : List UInt8} : IsIdentifier word → Suffixes rest →
      Suffixes (0x2E :: (word ++ rest))
  | conditional {word rest : List UInt8} : IsIdentifier word → Suffixes rest →
      Suffixes (0x3F :: 0x2E :: (word ++ rest))
  | bracket {k : Bracket} {inner rest : List UInt8} : k ∈ [.round, .square] →
      k.Content inner k.closer → Suffixes rest → Suffixes (k.opener :: (inner ++ k.closer :: rest))

/-- **A text that goes on with a suffix**, complete or not. -/
inductive OpensSuffix : List UInt8 → Prop
  | member {b : UInt8} {rest : List UInt8} : Bytes.startsWord b = true →
      OpensSuffix (0x2E :: b :: rest)
  | conditional {b : UInt8} {rest : List UInt8} : Bytes.startsWord b = true →
      OpensSuffix (0x3F :: 0x2E :: b :: rest)
  | bracket {k : Bracket} {rest : List UInt8} : k ∈ [.round, .square] →
      OpensSuffix (k.opener :: rest)

theorem Bracket.opener_not_inWord (k : Bracket) : Bytes.inWord k.opener = false := by
  cases k <;> decide

/-- No suffix begins with a byte of a word. -/
theorem Suffixes.not_inWord (hs : Suffixes text)
    (hrest : text = [] → ∀ b ∈ rest.head?, Bytes.inWord b = false) :
    ∀ b ∈ (text ++ rest).head?, Bytes.inWord b = false := by
  cases hs with
  | nil => exact hrest rfl
  | member _ _ =>
    rintro b ⟨⟩
    decide
  | conditional _ _ =>
    rintro b ⟨⟩
    decide
  | @bracket k _ _ _ _ _ =>
    rintro b ⟨⟩
    exact Bracket.opener_not_inWord k

/-- A word that ends where the text does is a word at the end of what the text is part of. -/
theorem SplitsWord.append (h : SplitsWord text rest) (front : List UInt8) :
    SplitsWord (front ++ text) rest := by
  cases text with
  | nil => exact absurd h.1 Bool.false_ne_true
  | cons b text =>
    refine ⟨?_, h.2⟩
    rw [List.getLast?_append_of_ne_nil _ (List.cons_ne_nil _ _)]
    exact h.1

/-- Behind an identifier with suffixes, neither the identifier goes on nor a suffix is torn. -/
theorem IsIdentifier.next_not_inWord {tail : List UInt8} (hw : IsIdentifier word)
    (hs : Suffixes tail) (hsplit : ¬ SplitsWord (word ++ tail) rest) :
    ∀ b ∈ (tail ++ rest).head?, Bytes.inWord b = false := by
  refine hs.not_inWord fun hnil => hw.not_inWord ?_
  rwa [hnil, List.append_nil] at hsplit

/-- **An expression ends** where no suffix follows. -/
theorem implicitEnd_stop (h : src.Fills rest i stop) (hrest : ¬ OpensSuffix rest) :
    implicitEnd src i stop = .ok (.here i) := by
  cases rest with
  | nil =>
    have hend : ¬ i < stop := Nat.not_lt.mpr (Nat.le_of_eq h.2)
    rw [implicitEnd, if_neg hend]
  | cons b rest =>
    have hmember : (b == 0x2E && Bytes.startsWord (rest.headD 0)) = false := by
      refine Bool.eq_false_iff.mpr fun heq => ?_
      obtain ⟨hb, hnext⟩ := Bool.and_eq_true_iff.mp heq
      obtain rfl := beq_iff_eq.mp hb
      cases rest with
      | nil => exact absurd hnext (by decide)
      | cons c rest => exact hrest (.member hnext)
    have hconditional : (if b == 0x3F && rest.headD 0 == 0x2E then wordStartsAt src (i + 2) stop
        else (return false : Scan Bool)) = .ok false := by
      split
      · next heq =>
        obtain ⟨hb, hnext⟩ := Bool.and_eq_true_iff.mp heq
        obtain rfl := beq_iff_eq.mp hb
        cases rest with
        | nil => exact absurd hnext (by decide)
        | cons c rest =>
          obtain rfl : c = 0x2E := beq_iff_eq.mp hnext
          rw [h.tail.tail.wordStartsAt]
          cases rest with
          | nil => rfl
          | cons d rest =>
            exact congrArg Except.ok (Bool.eq_false_iff.mpr fun hd => hrest (.conditional hd))
      · rfl
    have hbracket : (b == 0x28 || b == 0x5B) = false := by
      refine Bool.eq_false_iff.mpr fun heq => ?_
      rcases (Bool.or_eq_true _ _).mp heq with hb | hb
      · obtain rfl := beq_iff_eq.mp hb
        exact hrest (.bracket (k := .round) (by decide))
      · obtain rfl := beq_iff_eq.mp hb
        exact hrest (.bracket (k := .square) (by decide))
    rw [implicitEnd, if_pos h.lt, bind_of_eq h.byteAt, bind_of_eq h.byteAfter, hmember,
      if_neg Bool.false_ne_true, bind_of_eq hconditional, if_neg Bool.false_ne_true, hbracket]
    rfl

/-- An answer that is only named from an earlier position. -/
theorem map_widen {j : Nat} {h : i ≤ j} {x : Scan (AtLeast j)} :
    (do return (← x).widen h : Scan (AtLeast i)).map (·.1) = x.map (·.1) :=
  (map_bind_of_eq fun _ => rfl).trans (by cases x <;> rfl)

/-- **The suffixes are passed**, all of them and no more. -/
theorem Suffixes.implicitEnd (hs : Suffixes text) (h : src.Fills (text ++ rest) i stop)
    (hrest : ¬ OpensSuffix rest) (hsplit : ¬ SplitsWord text rest) :
    (Template.implicitEnd src i stop).map (·.1) = .ok (i + text.length) := by
  induction hs generalizing i with
  | nil =>
    rw [implicitEnd_stop h hrest]
    rfl
  | @member word tail hw hs ih =>
    rw [List.cons_append, List.append_assoc] at h
    have hlen : i + 1 + word.length + tail.length = i + (0x2E :: (word ++ tail)).length := by
      rw [List.length_cons, List.length_append]
      omega
    have hnext := hw.next_not_inWord hs fun hin => hsplit (hin.append [0x2E])
    have hstarts : Bytes.startsWord ((word ++ (tail ++ rest)).headD 0) = true := by
      obtain ⟨b, more, rfl, hb⟩ := hw.exists_cons
      exact hb
    rw [Template.implicitEnd, if_pos h.lt, bind_of_eq h.byteAt, bind_of_eq h.byteAfter, hstarts]
    refine (congrArg _ (bind_of_eq (hw.identifierEnd h.tail hnext) _)).trans ?_
    refine map_widen.trans ?_
    rw [← hlen]
    exact ih h.tail.behind fun hin => hsplit (hin.append (0x2E :: word))
  | @conditional word tail hw hs ih =>
    rw [List.cons_append, List.cons_append, List.append_assoc] at h
    have hlen : i + 2 + word.length + tail.length
        = i + (0x3F :: 0x2E :: (word ++ tail)).length := by
      rw [List.length_cons, List.length_cons, List.length_append]
      omega
    have hnext := hw.next_not_inWord hs fun hin => hsplit (hin.append [0x3F, 0x2E])
    have hstarts : wordStartsAt src (i + 2) stop = .ok true := by
      obtain ⟨b, more, rfl, hb⟩ := hw.exists_cons
      rw [h.tail.tail.wordStartsAt]
      exact congrArg Except.ok hb
    rw [Template.implicitEnd, if_pos h.lt, bind_of_eq h.byteAt, bind_of_eq h.byteAfter]
    refine (congrArg _ (bind_of_eq hstarts _)).trans ?_
    refine (congrArg _ (bind_of_eq (hw.identifierEnd h.tail.tail hnext) _)).trans ?_
    refine map_widen.trans ?_
    rw [← hlen]
    exact ih h.tail.tail.behind fun hin => hsplit (hin.append (0x3F :: 0x2E :: word))
  | @bracket k inner tail hk hinner hs ih =>
    have htext : k.opener :: (inner ++ k.closer :: tail) ++ rest
        = k.opener :: (inner ++ k.closer :: (tail ++ rest)) := by
      rw [List.cons_append, List.append_assoc, List.cons_append]
    rw [htext] at h
    have hlen : i + 1 + inner.length + 1 + tail.length
        = i + (k.opener :: (inner ++ k.closer :: tail)).length := by
      rw [List.length_cons, List.length_append, List.length_cons]
      omega
    obtain ⟨⟨_, _⟩, hclose⟩ := h.closing hinner
    have hfront : k.opener :: (inner ++ [k.closer]) ++ tail
        = k.opener :: (inner ++ k.closer :: tail) := by
      rw [List.cons_append, List.append_assoc, List.singleton_append]
    have hrest := ih h.tail.behind.tail fun hin => hsplit (hfront ▸ hin.append _)
    rw [Template.implicitEnd, if_pos h.lt, bind_of_eq h.byteAt, bind_of_eq h.byteAfter]
    simp only [List.mem_cons, List.not_mem_nil, or_false] at hk
    rcases hk with rfl | rfl <;>
    · refine (congrArg _ (bind_of_eq hclose _)).trans ?_
      exact map_widen.trans (hrest.trans (congrArg Except.ok hlen))

/-! ## The word behind an `@` -/

/-- **A word behind an `@` is read as a word**, unless the `@` ends a word itself. -/
theorem readTransition_word (h : src.Fills (0x40 :: (word ++ rest)) mark stop)
    (hfree : ¬ FollowsWord src mark) (hword : IsIdentifier word)
    (hrest : ∀ b ∈ rest.head?, Bytes.inWord b = false) :
    ∃ (hi : mark < mark + 1 + word.length) (hs : mark < stop),
      readTransition src mark stop
        = readWord src mark (Text.Utf8.decodeLenient word.toArray) (mark + 1 + word.length) stop
            hi hs := by
  refine ⟨by omega, h.lt, ?_⟩
  have hsize : mark ≤ src.size := Nat.le_trans h.le h.stop_le
  obtain ⟨embedded, hembedded, hiff⟩ := isEmbedded_ok hsize
  obtain rfl : embedded = false := eq_false_of_ne_true fun heq => hfree (hiff.mp heq)
  have hread := h.tail.wordAt
  rw [hword.leadingWord_append hrest] at hread
  obtain ⟨b, more, rfl, hb⟩ := hword.exists_cons
  have hne : ∀ c, Bytes.startsWord c = false → ¬ (b == c) = true := by
    rintro c hc heq
    rw [beq_iff_eq.mp heq, hc] at hb
    exact absurd hb Bool.false_ne_true
  have hnonempty := Text.Utf8.decodeLenient_cons_ne b more
  rw [readTransition, bind_of_eq hembedded, if_neg Bool.false_ne_true, dif_pos h.tail.lt,
    bind_of_eq h.tail.byteAt, if_neg (hne _ (by decide)), if_neg (hne _ (by decide)),
    if_neg (hne _ (by decide)), if_neg (hne _ (by decide)), bind_of_eq hread]
  exact if_neg hnonempty

/-- The words that are read as something else than an expression, or with the word behind
them. -/
def reservedWords : List String := memberKeywords ++ controlKeywords ++ directives ++ ["await"]

/-- **A word that is not reserved** is read as an expression. -/
theorem readWord_of_not_reserved {name : String} {hi : mark < i} {hs : mark < stop}
    (h : name ∉ reservedWords) :
    readWord src mark name i stop hi hs = readImplicit src mark name i stop hi := by
  simp only [reservedWords, List.mem_append, not_or] at h
  obtain ⟨⟨⟨hmembers, hcontrol⟩, hdirective⟩, -⟩ := h
  have hno : ∀ {words : List String}, name ∉ words → ¬ words.contains name = true := fun hn hin =>
    hn (List.contains_iff_mem.mp hin)
  have hmembers' : readMembers src mark name i stop hi = .ok none := if_neg (hno hmembers)
  have hopens : opensControl src name i stop = .ok false := if_neg (hno hcontrol)
  have hcontrol' : readControl src mark name i stop hi = .ok none := by
    rw [readControl, bind_of_eq hopens]
    rfl
  rw [readWord, bind_of_eq hmembers']
  refine (bind_of_eq hcontrol' _).trans ?_
  exact if_neg (hno hdirective)

/-- A word with suffixes is no attribute; without them it is one if the text behind it says so. -/
theorem Suffixes.no_attribute (hs : Suffixes text)
    (h : text = [] → ∀ b ∈ rest.head?, b ∉ [0x3D, 0x2D, 0x3A]) :
    ∀ b ∈ (text ++ rest).head?, b ∉ [0x3D, 0x2D, 0x3A] := by
  cases hs with
  | nil => exact h rfl
  | member _ _ =>
    rintro b ⟨⟩
    decide
  | conditional _ _ =>
    rintro b ⟨⟩
    decide
  | @bracket k _ _ _ _ _ =>
    rintro b ⟨⟩
    cases k <;> decide

/-- **An expression whose first word is known** goes on over its suffixes. -/
theorem readImplicit_suffixes {name : String} {suffixes : List UInt8} {hi : mark < i}
    (hname : name ≠ "await") (hs : Suffixes suffixes) (h : src.Fills (suffixes ++ rest) i stop)
    (hsplit : ¬ SplitsWord suffixes rest) (hrest : ¬ OpensSuffix rest)
    (hattribute : suffixes = [] → ∀ b ∈ rest.head?, b ∉ [0x3D, 0x2D, 0x3A]) :
    (readImplicit src mark name i stop hi).map (fun r => (r.1, r.2.1))
      = .ok (some (.simple (.implicitExpression (textOf src (mark + 1) (i + suffixes.length)))
          mark (i + suffixes.length)), i + suffixes.length) := by
  have hno : ∀ c ∈ [0x3D, 0x2D, 0x3A], isAt src c i stop = .ok false := by
    intro c hc
    rw [h.isAt]
    refine congrArg Except.ok (beq_eq_false_iff_ne.mpr fun heq => ?_)
    exact hs.no_attribute hattribute c heq hc
  have hend := hs.implicitEnd h hrest hsplit
  rw [readImplicit, if_neg hname]
  refine (congrArg _ (bind_of_eq (hno _ (by decide)) _)).trans ?_
  refine (congrArg _ (bind_of_eq (hno _ (by decide)) _)).trans ?_
  refine (congrArg _ (bind_of_eq (hno _ (by decide)) _)).trans ?_
  refine (congrArg _ (if_neg Bool.false_ne_true)).trans ?_
  cases hread : implicitEnd src i stop with
  | error e =>
    rw [hread] at hend
    cases hend
  | ok n =>
    rw [hread] at hend
    obtain ⟨n, hn⟩ := n
    obtain rfl : n = i + suffixes.length := Except.ok.inj hend
    rfl

/-- **Implicit expressions are read maximally.** An identifier that is not reserved, with any
suffixes, is an expression, if the text that follows it in the range continues neither the last
identifier nor the suffixes and, where there are none, does not make an attribute of the word. -/
theorem readTransition_implicit {suffixes : List UInt8} (hword : IsIdentifier word)
    (hname : Text.Utf8.decodeLenient word.toArray ∉ reservedWords) (hs : Suffixes suffixes)
    (h : src.Fills (0x40 :: (word ++ suffixes ++ rest)) mark stop) (hfree : ¬ FollowsWord src mark)
    (hsplit : ¬ SplitsWord (word ++ suffixes) rest) (hrest : ¬ OpensSuffix rest)
    (hattribute : suffixes = [] → ∀ b ∈ rest.head?, b ∉ [0x3D, 0x2D, 0x3A]) :
    (readTransition src mark stop).map (fun r => (r.1, r.2.1))
      = .ok (some (.simple (.implicitExpression
            (Text.Utf8.decodeLenient (word ++ suffixes).toArray))
          mark (mark + 1 + (word ++ suffixes).length)), mark + 1 + (word ++ suffixes).length) := by
  have htext := h.1.tail.left
  rw [List.append_assoc] at h
  have hnext := hword.next_not_inWord hs hsplit
  obtain ⟨hi, hin, hread⟩ := readTransition_word h hfree hword hnext
  have hawait : Text.Utf8.decodeLenient word.toArray ≠ "await" := by
    intro heq
    exact hname (heq ▸ by decide)
  have hexpression : textOf src (mark + 1) (mark + 1 + (word ++ suffixes).length)
      = Text.Utf8.decodeLenient (word ++ suffixes).toArray := by
    rw [textOf, htext.slice_eq]
  rw [hread, readWord_of_not_reserved hname, readImplicit_suffixes hawait hs h.tail.behind
    (fun hin => hsplit (hin.append word)) hrest hattribute, ← hexpression, List.length_append,
    ← Nat.add_assoc]

/-- The bytes of `.b(")")[0]?.d`. -/
def memberSuffixes : List UInt8 :=
  0x2E :: ([0x62] ++ Bracket.round.opener :: (([0x22, 0x29, 0x22] ++ []) ++ Bracket.round.closer
    :: (Bracket.square.opener :: ([0x30] ++ Bracket.square.closer
      :: (0x3F :: 0x2E :: ([0x64] ++ []))))))

/-- A point in front of a blank opens no suffix. -/
theorem not_opensSuffix_point_blank : ¬ OpensSuffix [0x2E, 0x20] := by
  generalize htext : ([0x2E, 0x20] : List UInt8) = text
  intro h
  cases h with
  | member hb =>
    obtain rfl := (List.cons.inj (List.cons.inj htext).2).1
    exact absurd hb (by decide)
  | conditional _ => exact absurd (List.cons.inj htext).1 (by decide)
  | @bracket k _ _ =>
    have hopener := (List.cons.inj htext).1
    cases k <;> exact absurd hopener (by decide)

/-- A bracket in a string, and a point at the end that is left to the markup:
`@a.b(")")[0]?.d. `. -/
theorem readTransition_implicit_point :
    IsIdentifier [0x61] ∧ Text.Utf8.decodeLenient [0x61].toArray ∉ reservedWords
      ∧ Suffixes memberSuffixes
      ∧ Bytes.Fills (0x40 :: ([0x61] ++ memberSuffixes ++ [0x2E, 0x20])).toArray
          (0x40 :: ([0x61] ++ memberSuffixes ++ [0x2E, 0x20])) 0 17
      ∧ ¬ FollowsWord (0x40 :: ([0x61] ++ memberSuffixes ++ [0x2E, 0x20])).toArray 0
      ∧ ¬ SplitsWord ([0x61] ++ memberSuffixes) [0x2E, 0x20]
      ∧ ¬ OpensSuffix [0x2E, 0x20]
      ∧ (readTransition (0x40 :: ([0x61] ++ memberSuffixes ++ [0x2E, 0x20])).toArray 0 17).map
            (fun r => (r.1, r.2.1))
          = .ok (some (.simple (.implicitExpression "a.b(\")\")[0]?.d") 0 15), 15) := by
  have hname : ∀ {b}, Bytes.startsWord b = true → IsIdentifier [b] := fun hb =>
    ⟨hb, List.forall_mem_singleton.mpr (inWord_of_startsWord hb)⟩
  have hstring : IsString [0x22, 0x29, 0x22] :=
    @IsString.quoted [0x29] (.byte (by decide) (by decide) (by decide) .nil)
  have hs : Suffixes memberSuffixes :=
    .member (hname (by decide)) <| .bracket (by decide) (.string hstring .nil) <|
      .bracket (by decide) (.byte (by decide) (by decide) .nil) <|
        .conditional (hname (by decide)) .nil
  have hfill : Bytes.Fills (0x40 :: ([0x61] ++ memberSuffixes ++ [0x2E, 0x20])).toArray
      (0x40 :: ([0x61] ++ memberSuffixes ++ [0x2E, 0x20])) 0 17 :=
    ⟨by decide +kernel, by decide⟩
  have hreserved : Text.Utf8.decodeLenient [0x61].toArray ∉ reservedWords := by decide +kernel
  have hsplit : ¬ SplitsWord ([0x61] ++ memberSuffixes) [0x2E, 0x20] :=
    fun h => absurd h.2 (by decide)
  have hfree : ¬ FollowsWord (0x40 :: ([0x61] ++ memberSuffixes ++ [0x2E, 0x20])).toArray 0 := by
    decide
  have hexpression : Text.Utf8.decodeLenient ([0x61] ++ memberSuffixes).toArray
      = "a.b(\")\")[0]?.d" := by decide +kernel
  have hread := readTransition_implicit (hname (b := 0x61) (by decide)) hreserved hs hfill hfree
    hsplit not_opensSuffix_point_blank (fun h => absurd h (List.cons_ne_nil _ _))
  rw [hexpression] at hread
  exact ⟨hname (by decide), hreserved, hs, hfill, hfree, hsplit, not_opensSuffix_point_blank,
    hread⟩

end SyntaxForest.Template
