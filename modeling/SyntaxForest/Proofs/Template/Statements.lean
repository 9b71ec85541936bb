import SyntaxForest.Proofs.Template.Elements
import SyntaxForest.Proofs.Template.Lexemes
import SyntaxForest.Template.Scanner

/-!
# Markup between statements

Inside code, markup begins only where a statement can, and the scanner remembers in one bit
whether that is so. For a body that is a sequence of statements, blocks, elements and lines of
markup (`CodeBody`), the bit is right: it is set wherever an item of the body begins, and reset by
the first byte of a statement that is no blank and in no comment, so that a comparison, a type
argument or a tag in a string stays code. What `splitCode` finds are the spans of the elements
and of the lines, in order, at whatever depth of blocks they stand (`splitCode_body`).
-/

namespace SyntaxForest.Template

open Lexical

variable {src : Bytes} {s text : List UInt8} {b next : UInt8} {i stop : Nat}
variable {fresh statement : Bool} {runs : List Range}

/-! ## Bodies -/

/-- **The text of a statement or of the header of a block**, before the byte `next`; `fresh` says
that nothing significant precedes it. No markup may begin where a statement does. -/
inductive Clause : (fresh : Bool) → List UInt8 → UInt8 → Prop
  | nil {fresh : Bool} {next : UInt8} : Clause fresh [] next
  | blank {fresh : Bool} {b next : UInt8} {rest : List UInt8} : Bytes.isBlank b = true →
      Clause fresh rest next → Clause fresh (b :: rest) next
  | comment {fresh : Bool} {s rest : List UInt8} {next : UInt8} : IsComment s →
      Clause fresh rest next → Clause fresh (s ++ rest) next
  | string {fresh : Bool} {s rest : List UInt8} {next : UInt8} : IsString s →
      Clause false rest next → Clause fresh (s ++ rest) next
  | verbatim {s rest : List UInt8} {next : UInt8} : IsVerbatim s → rest.headD next ≠ 0x22 →
      Clause false rest next → Clause false (s ++ rest) next
  | byte {fresh : Bool} {b next : UInt8} {rest : List UInt8} :
      b ∉ [0x22, 0x27, 0x3A, 0x3B, 0x7B, 0x7D] → Bytes.isBlank b = false →
      (fresh = true → b ≠ 0x3C ∧ b ≠ 0x40) → ¬ OpenTogether b (rest.headD next) →
      Clause false rest next → Clause fresh (b :: rest) next

/-- **A body**, from an offset on, with the spans of its elements and of its lines of markup: a
sequence of blanks, comments, statements, blocks, elements and lines. -/
inductive CodeBody : Nat → List UInt8 → List Range → Prop
  | nil {i : Nat} : CodeBody i [] []
  | blank {i : Nat} {b : UInt8} {rest : List UInt8} {runs : List Range} :
      Bytes.isBlank b = true → CodeBody (i + 1) rest runs → CodeBody i (b :: rest) runs
  | comment {i : Nat} {s rest : List UInt8} {runs : List Range} : IsComment s →
      CodeBody (i + s.length) rest runs → CodeBody i (s ++ rest) runs
  | statement {i : Nat} {s rest : List UInt8} {runs : List Range} : Clause true s 0x3B →
      CodeBody (i + s.length + 1) rest runs → CodeBody i (s ++ 0x3B :: rest) runs
  | block {i : Nat} {s inner rest : List UInt8} {runs later : List Range} : Clause true s 0x7B →
      CodeBody (i + s.length + 1) inner runs →
      CodeBody (i + s.length + 1 + inner.length + 1) rest later →
      CodeBody i (s ++ 0x7B :: (inner ++ 0x7D :: rest)) (runs ++ later)
  | element {i : Nat} {s rest : List UInt8} {runs : List Range} : IsElement s →
      CodeBody (i + s.length) rest runs → CodeBody i (s ++ rest) (⟨i, i + s.length⟩ :: runs)
  | line {i : Nat} {s rest : List UInt8} {runs : List Range} : Bytes.newline ∉ s →
      CodeBody (i + (s.length + 2) + 1) rest runs →
      CodeBody i (0x40 :: 0x3A :: (s ++ Bytes.newline :: rest)) (⟨i, i + (s.length + 2)⟩ :: runs)

/-! ## Steps of the scanner -/

/-- A blank changes nothing. -/
theorem splitFrom_blank (hat : src[i]? = some b) (hb : Bytes.isBlank b = true) (hlt : i < stop)
    (hin : i + 1 < stop → i + 1 < src.size) :
    splitFrom src i stop statement = splitFrom src (i + 1) stop statement := by
  obtain ⟨following, hfollowing⟩ := exists_byteAfter hin
  rw [splitFrom, dif_pos hlt, bind_of_eq (byteAt_of_eq hat), bind_of_eq hfollowing, if_pos hb]

/-- Neither does a comment. -/
theorem splitFrom_comment (hs : IsComment s) (h : src.Spells s i) (hle : i + s.length ≤ stop) :
    splitFrom src i stop statement = splitFrom src (i + s.length) stop statement := by
  cases hs with
  | @line t hfree =>
    have hfollowing := byteAfter_spells h (by simp) hle
    have hlt : i < stop := lt_of_length_cons hle
    rw [splitFrom, dif_pos hlt, bind_of_eq (byteAt_of_eq h.head), bind_of_eq hfollowing]
    show splitFrom src (pastOrStop src [0x0A] (i + 1) stop (Nat.le_refl _) hlt).1 stop statement = _
    rw [pastOrStop_line hfree h hle]
  | @block t hfree =>
    have hfollowing := byteAfter_spells h (by simp) hle
    have hlt : i < stop := lt_of_length_cons hle
    rw [splitFrom, dif_pos hlt, bind_of_eq (byteAt_of_eq h.head), bind_of_eq hfollowing]
    show splitFrom src (pastOrStop src [0x2A, 0x2F] (i + 2) stop (Nat.le_succ (i + 1)) hlt).1 stop
      statement = _
    rw [pastOrStop_block hfree h hle]

/-- **A byte of code** that is no blank and begins neither a comment nor markup. -/
theorem splitFrom_code (hat : src[i]? = some b) (hnext : byteAfter src i stop = .ok next)
    (hlt : i < stop) (hblank : Bytes.isBlank b = false)
    (hcomment : b = 0x2F → next ≠ 0x2F ∧ next ≠ 0x2A)
    (hmarkup : statement = true → b ≠ 0x3C ∧ b ≠ 0x40) :
    splitFrom src i stop statement
      = (codeStep src b next i stop >>= fun n => splitFrom src n.1 stop (endsStatement b)) := by
  have htag : (statement && b == 0x3C) = false := Bool.eq_false_iff.mpr fun h =>
    (hmarkup (Bool.and_eq_true_iff.mp h).1).1 (beq_iff_eq.mp (Bool.and_eq_true_iff.mp h).2)
  have hsign : (statement && b == 0x40) = false := Bool.eq_false_iff.mpr fun h =>
    (hmarkup (Bool.and_eq_true_iff.mp h).1).2 (beq_iff_eq.mp (Bool.and_eq_true_iff.mp h).2)
  rw [splitFrom, dif_pos hlt, bind_of_eq (byteAt_of_eq hat), bind_of_eq hnext,
    if_neg (ne_true_of_eq_false hblank), if_neg (not_beq_and_beq fun h => (hcomment h).1),
    if_neg (not_beq_and_beq fun h => (hcomment h).2), htag, hsign]
  rfl

/-- A string is passed whole, wherever it stands, and no statement begins behind it. -/
theorem splitFrom_string (hs : IsString s) (h : src.Spells s i) (hle : i + s.length ≤ stop) :
    splitFrom src i stop statement = splitFrom src (i + s.length) stop false := by
  obtain ⟨hn, hskip⟩ := hs.skip h hle
  cases hs with
  | @quoted body hbody =>
    have hfollowing := byteAfter_spells h (by simp) hle
    have hlt : i < stop := lt_of_length_cons hle
    rw [splitFrom_code h.head hfollowing hlt (by decide) (fun h => absurd h (by decide))
      fun _ => by decide]
    exact bind_of_eq hskip _

/-- A verbatim string is passed whole inside a statement. -/
theorem splitFrom_verbatim (hs : IsVerbatim s) (h : src.Spells s i) (hle : i + s.length ≤ stop)
    (hnext : isAt src 0x22 (i + s.length) stop = .ok false) :
    splitFrom src i stop false = splitFrom src (i + s.length) stop false := by
  obtain ⟨hn, hskip⟩ := hs.skip h hle hnext
  cases hs with
  | @quoted body hbody =>
    have hfollowing := byteAfter_spells h (by simp) hle
    have hlt : i < stop := lt_of_length_cons hle
    rw [splitFrom_code h.head hfollowing hlt (by decide) (fun h => absurd h (by decide))
      fun h => absurd h Bool.false_ne_true]
    exact bind_of_eq hskip _

/-- A byte that is read alone decides whether a statement begins behind it. -/
theorem splitFrom_byte (hat : src[i]? = some b) (hnext : byteAfter src i stop = .ok next)
    (hlt : i < stop) (hblank : Bytes.isBlank b = false) (hquote : b ∉ [0x22, 0x27])
    (hopen : ¬ OpenTogether b next) (hmarkup : statement = true → b ≠ 0x3C ∧ b ≠ 0x40) :
    splitFrom src i stop statement = splitFrom src (i + 1) stop (endsStatement b) := by
  simp only [OpenTogether, not_or, not_and] at hopen
  simp only [List.mem_cons, List.not_mem_nil, or_false, not_or] at hquote
  rw [splitFrom_code hat hnext hlt hblank hopen.2 hmarkup, codeStep,
    if_neg (mt beq_iff_eq.mp hquote.1), if_neg (mt beq_iff_eq.mp hquote.2),
    if_neg (not_beq_and_beq fun h => (hopen.1 h).1)]
  rfl

/-! ## Statements -/

/-- A part that is passed, and then what follows it. -/
theorem splitFrom_append {t : List UInt8} {later : Bool} (h : src.Spells (s ++ t ++ [next]) i)
    (hlt : i + (s ++ t).length < stop)
    (hstep : src.Spells s i → src[i + s.length]? = some (t.headD next) → i + s.length < stop →
      splitFrom src i stop fresh = splitFrom src (i + s.length) stop later)
    (hrest : src.Spells (t ++ [next]) (i + s.length) → i + s.length + t.length < stop →
      ∃ statement, splitFrom src (i + s.length) stop later
        = splitFrom src (i + s.length + t.length) stop statement) :
    ∃ statement, splitFrom src i stop fresh
      = splitFrom src (i + (s ++ t).length) stop statement := by
  rw [List.append_assoc] at h
  rw [List.length_append, ← Nat.add_assoc] at hlt ⊢
  obtain ⟨statement, hrest⟩ := hrest h.right hlt
  exact ⟨statement, (hstep h.left h.right.first (by omega)).trans hrest⟩

/-- **The text of a statement holds no markup**; only what is known of the next byte differs. -/
theorem Clause.passed (hclause : Clause fresh text next) (h : src.Spells (text ++ [next]) i)
    (hlt : i + text.length < stop) :
    ∃ statement, splitFrom src i stop fresh = splitFrom src (i + text.length) stop statement := by
  induction hclause generalizing i with
  | nil => exact ⟨_, rfl⟩
  | @blank fresh b next rest hb _ ih =>
    refine splitFrom_append (s := [b]) h hlt (fun hat hnext hlt => ?_) ih
    exact splitFrom_blank hat.head hb (by omega) fun _ => (Array.getElem?_eq_some_iff.mp hnext).1
  | comment hs _ ih =>
    exact splitFrom_append h hlt (fun hat _ hlt => splitFrom_comment hs hat (Nat.le_of_lt hlt)) ih
  | string hs _ ih =>
    exact splitFrom_append h hlt (fun hat _ hlt => splitFrom_string hs hat (Nat.le_of_lt hlt)) ih
  | verbatim hs hquote _ ih =>
    exact splitFrom_append h hlt (fun hat hnext hlt =>
      splitFrom_verbatim hs hat (Nat.le_of_lt hlt) (isAt_of_ne hnext hquote)) ih
  | @byte fresh b next rest hb hblank hmarkup hopen _ ih =>
    simp only [List.mem_cons, List.not_mem_nil, or_false, not_or] at hb
    obtain ⟨hstring, hchar, hcolon, hsemi, hleft, hright⟩ := hb
    have hends : endsStatement b = false := by
      simp only [endsStatement, beq_eq_false_iff_ne.mpr hcolon, beq_eq_false_iff_ne.mpr hsemi,
        beq_eq_false_iff_ne.mpr hleft, beq_eq_false_iff_ne.mpr hright, Bool.or_self]
    have hquote : b ∉ [0x22, 0x27] := by
      simp only [List.mem_cons, List.not_mem_nil, or_false, not_or]
      exact ⟨hstring, hchar⟩
    refine splitFrom_append (s := [b]) h hlt (fun hat hnext hlt => ?_) ih
    rw [← hends]
    exact splitFrom_byte hat.head (byteAfter_of_eq hnext hlt)
      (by omega) hblank hquote hopen hmarkup

/-- **Behind a semicolon or a brace** a statement can begin, whatever precedes it. -/
theorem splitFrom_terminator (hb : b ∈ [0x3B, 0x7B, 0x7D]) (hat : src[i]? = some b)
    (hlt : i < stop) (hin : i + 1 < stop → i + 1 < src.size) :
    splitFrom src i stop statement = splitFrom src (i + 1) stop true := by
  obtain ⟨next, hnext⟩ := exists_byteAfter hin
  simp only [List.mem_cons, List.not_mem_nil, or_false] at hb
  rcases hb with rfl | rfl | rfl <;>
    exact splitFrom_byte hat hnext hlt (by decide) (by decide) (by simp [OpenTogether])
      fun _ => by decide

/-- **A statement or a header is passed** with the byte that ends it. -/
theorem Clause.ended (hclause : Clause true text b) (hb : b ∈ [0x3B, 0x7B, 0x7D])
    (h : src.Spells (text ++ [b]) i) (hlt : i + text.length < stop) (hsize : stop ≤ src.size) :
    splitFrom src i stop true = splitFrom src (i + text.length + 1) stop true := by
  obtain ⟨statement, hpassed⟩ := hclause.passed h hlt
  rw [hpassed, splitFrom_terminator hb h.right.head hlt (by omega)]

/-! ## Markup -/

/-- **An element is a run of markup**, if a statement can begin where it does. -/
theorem splitFrom_element (hs : IsElement s) (h : src.Spells s i) (hle : i + s.length ≤ stop) :
    splitFrom src i stop true
      = ((⟨i, i + s.length⟩ :: ·) <$> splitFrom src (i + s.length) stop true) := by
  obtain ⟨hn, hend⟩ := hs.skip h hle
  obtain ⟨b, rest, rfl, hb⟩ := hs.exists_cons
  have hfollowing := byteAfter_spells h (by simp) hle
  have hlt : i < stop := lt_of_length_cons hle
  have htag : startsTag b = true := by
    rw [startsTag, hb, Bool.true_or]
  rw [splitFrom, dif_pos hlt, bind_of_eq (byteAt_of_eq h.head), bind_of_eq hfollowing]
  show (if startsTag b = true then (elementEnd src i stop >>= _) else _) = _
  rw [if_pos htag, bind_of_eq hend]
  rfl

/-- **A line of markup is a run** up to its newline. -/
theorem splitFrom_line (hs : Bytes.newline ∉ s)
    (h : src.Spells (0x40 :: 0x3A :: (s ++ [Bytes.newline])) i) (hlt : i + (s.length + 2) < stop) :
    splitFrom src i stop true
      = ((⟨i, i + (s.length + 2)⟩ :: ·) <$> splitFrom src (i + (s.length + 2)) stop true) := by
  have hfollowing : byteAfter src i stop = .ok 0x3A := byteAfter_of_eq h.tail.head (by omega)
  have hin : i < stop := by omega
  have hfree : 0x0A ∉ 0x3A :: s := List.not_mem_cons_of_ne_of_not_mem (by decide) hs
  have hline : src.Spells (0x3A :: s ++ [0x0A]) (i + 1) := h.tail
  have hend : (upTo src [0x0A] (i + 1) stop (Nat.le_refl _) hin).1 = i + (s.length + 2) := by
    rw [upTo_of_find (hline.find_byte hfree (by rw [List.length_cons]; omega)), List.length_cons]
    omega
  rw [splitFrom, dif_pos hin, bind_of_eq (byteAt_of_eq h.head), bind_of_eq hfollowing]
  show (splitFrom src (upTo src [0x0A] (i + 1) stop (Nat.le_refl _) hin).1 stop true >>=
    fun later => pure (⟨i, (upTo src [0x0A] (i + 1) stop (Nat.le_refl _) hin).1⟩ :: later)) = _
  rw [hend]
  rfl

/-! ## Whole bodies -/

/-- The runs of a part, and then those of what follows it. -/
theorem map_append_map (runs later : List Range) (x : Scan (List Range)) :
    ((runs ++ ·) <$> ((later ++ ·) <$> x)) = ((runs ++ later ++ ·) <$> x) := by
  cases x with
  | error e => rfl
  | ok found => exact congrArg Except.ok (List.append_assoc runs later found).symm


/-- **A body is passed**, and its elements and lines are the runs that are found in it. -/
theorem CodeBody.passed (hbody : CodeBody i text runs) (h : src.Spells text i)
    (hle : i + text.length ≤ stop) (hsize : i < stop → stop ≤ src.size) :
    splitFrom src i stop true
      = ((runs ++ ·) <$> splitFrom src (i + text.length) stop true) := by
  induction hbody with
  | nil => exact (id_map _).symm
  | @blank i b rest runs hb _ ih =>
    have hlen : i + (b :: rest).length = i + 1 + rest.length := by
      rw [List.length_cons]
      omega
    rw [hlen] at hle ⊢
    rw [splitFrom_blank h.head hb (by omega) (by omega), ih h.tail hle (by omega)]
  | @comment i s rest runs hs _ ih =>
    rw [List.length_append, ← Nat.add_assoc] at hle ⊢
    rw [splitFrom_comment hs h.left (by omega), ih h.right hle (by omega)]
  | @statement i s rest runs hs _ ih =>
    have hlen : i + (s ++ 0x3B :: rest).length = i + s.length + 1 + rest.length := by
      rw [List.length_append, List.length_cons]
      omega
    rw [hlen] at hle ⊢
    rw [hs.ended (by decide) h.upTo (by omega) (by omega), ih h.right.tail hle (by omega)]
  | @block i s inner rest runs later hs _ _ ihinner ihrest =>
    have hlen : i + (s ++ 0x7B :: (inner ++ 0x7D :: rest)).length
        = i + s.length + 1 + inner.length + 1 + rest.length := by
      rw [List.length_append, List.length_cons, List.length_append, List.length_cons]
      omega
    rw [hlen] at hle ⊢
    have hinner := h.right.tail
    have hclose : splitFrom src (i + s.length + 1 + inner.length) stop true
        = splitFrom src (i + s.length + 1 + inner.length + 1) stop true :=
      splitFrom_terminator (by decide) hinner.right.head (by omega) (by omega)
    rw [hs.ended (by decide) h.upTo (by omega) (by omega),
      ihinner hinner.left (by omega) (by omega), hclose,
      ihrest hinner.right.tail hle (by omega), map_append_map]
  | @element i s rest runs hs _ ih =>
    rw [List.length_append, ← Nat.add_assoc] at hle ⊢
    rw [splitFrom_element hs h.left (by omega), ih h.right hle (by omega)]
    exact map_append_map [_] runs _
  | @line i s rest runs hs _ ih =>
    have hlen : i + (0x40 :: 0x3A :: (s ++ Bytes.newline :: rest)).length
        = i + (s.length + 2) + 1 + rest.length := by
      rw [List.length_cons, List.length_cons, List.length_append, List.length_cons]
      omega
    rw [hlen] at hle ⊢
    have hline : src.Spells (0x40 :: 0x3A :: s ++ Bytes.newline :: rest) i := h
    have hnewline : src[i + (s.length + 2)]? = some Bytes.newline := hline.right.head
    have hblank : splitFrom src (i + (s.length + 2)) stop true
        = splitFrom src (i + (s.length + 2) + 1) stop true :=
      splitFrom_blank hnewline (by decide) (by omega) (by omega)
    rw [splitFrom_line hs hline.upTo (by omega), hblank, ih hline.right.tail hle (by omega)]
    exact map_append_map [_] runs _

/-- **The runs of markup in a body** are its elements and its lines of markup. -/
theorem splitCode_body (hbody : CodeBody i text runs) (h : src.Spells text i) :
    splitCode src i (i + text.length) = .ok runs := by
  have hsize : i < i + text.length → i + text.length ≤ src.size := fun hlt => by
    have := h.lt_size (j := text.length - 1) (by omega)
    omega
  have hend : splitFrom src (i + text.length) (i + text.length) true = .ok [] := by
    rw [splitFrom, dif_neg (Nat.lt_irrefl _)]
  rw [splitCode, hbody.passed h (Nat.le_refl _) hsize, hend]
  exact congrArg Except.ok (List.append_nil runs)

/-- The bytes of `if(a<b){<p>x</p>@:y`, a newline and `"<q>";}<r/>`. -/
def mixedBody : List UInt8 :=
  [0x69, 0x66, 0x28, 0x61, 0x3C, 0x62, 0x29] ++ 0x7B
    :: (((startTag [0x70] [] ++ ([0x78] ++ endTag [0x70] []))
      ++ (0x40 :: 0x3A :: ([0x79] ++ Bytes.newline
        :: (([0x22, 0x3C, 0x71, 0x3E, 0x22] ++ []) ++ 0x3B :: []))))
      ++ 0x7D :: (startTag [0x72] [0x2F] ++ []))

/-- A comparison, an element and a line in a block, a tag in a string, and an element behind. -/
theorem splitCode_body_mixed :
    CodeBody 0 mixedBody ([⟨8, 16⟩, ⟨16, 19⟩] ++ [⟨27, 31⟩])
      ∧ Bytes.Spells mixedBody.toArray mixedBody 0
      ∧ splitCode mixedBody.toArray 0 (0 + mixedBody.length)
        = .ok ([⟨8, 16⟩, ⟨16, 19⟩] ++ [⟨27, 31⟩]) := by
  have hheader : Clause true [0x69, 0x66, 0x28, 0x61, 0x3C, 0x62, 0x29] 0x7B := by
    refine .byte (by decide) (by decide) (fun _ => by decide) (by decide) ?_
    repeat
      refine .byte (by decide) (by decide) (fun h => absurd h Bool.false_ne_true) (by decide) ?_
    exact .nil
  have hname : ∀ {b}, Bytes.startsWord b = true → inTagName b = true → IsTagName [b] :=
    fun hstarts hb => ⟨hstarts, List.forall_mem_singleton.mpr hb⟩
  have hp : IsElement (startTag [0x70] [] ++ ([0x78] ++ endTag [0x70] [])) :=
    .pair ⟨hname (by decide) (by decide), by decide, .nil⟩ (by decide +kernel)
      (.text (by decide) .nil) (List.forall_mem_nil _)
  have hr : IsElement (startTag [0x72] [0x2F]) :=
    .single ⟨hname (by decide) (by decide), by decide, .byte (by decide) .nil⟩
      (by decide +kernel)
  have hstring : IsString [0x22, 0x3C, 0x71, 0x3E, 0x22] :=
    @IsString.quoted [0x3C, 0x71, 0x3E]
      (.byte (by decide) (by decide) (by decide) (.byte (by decide) (by decide) (by decide)
        (.byte (by decide) (by decide) (by decide) .nil)))
  have hbody : CodeBody 0 mixedBody ([⟨8, 16⟩, ⟨16, 19⟩] ++ [⟨27, 31⟩]) :=
    .block hheader (.element hp (.line (by decide) (.statement (.string hstring .nil) .nil)))
      (.element hr .nil)
  have hspells : Bytes.Spells mixedBody.toArray mixedBody 0 := by decide +kernel
  exact ⟨hbody, hspells, splitCode_body hbody hspells⟩

end SyntaxForest.Template
