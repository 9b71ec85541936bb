import SyntaxForest.Proofs.Template.Matching

/-!
# Character literals

The rule for character literals reads no escapes: an apostrophe is taken together with the next
one, if that follows within nine bytes on the same line (`Paired`). For most literals this is
the one that ends them, since no character has more than four bytes. The escaped apostrophe is
the exception: `'\''` is left at its last apostrophe, which then begins a pair of its own, if it
can.

So between brackets that hold character literals and plain bytes, the closing bracket is found
if no such literal is torn (`closing_letters`). At the first one that is torn, the search goes on
behind the apostrophe its last one is paired with: inside the next literal, whose bytes are
then read as code, or behind the closing bracket, which is then not found at all.
-/

namespace SyntaxForest.Bytes

variable {src : Bytes} {b : UInt8} {start stop : Nat}

/-- What a slice contains. -/
theorem contains_slice :
    (src.slice start stop).contains b = true ↔ ∃ i, start ≤ i ∧ i < stop ∧ src[i]? = some b := by
  rw [Array.contains_eq_mem, decide_eq_true_iff, Array.mem_iff_getElem?]
  refine ⟨?_, ?_⟩
  · rintro ⟨n, hn⟩
    rw [slice, Array.getElem?_extract] at hn
    split at hn
    · exact ⟨start + n, Nat.le_add_right _ _, by omega, hn⟩
    · cases hn
  · rintro ⟨i, hstart, hstop, hi⟩
    obtain ⟨n, rfl⟩ := Nat.exists_eq_add_of_le hstart
    have hsize := (Array.getElem?_eq_some_iff.mp hi).1
    refine ⟨n, ?_⟩
    rw [slice, Array.getElem?_extract, if_pos (by omega), hi]

end SyntaxForest.Bytes

namespace SyntaxForest.Template.Lexical

variable {src : Bytes} {k : Bracket} {text : List UInt8} {b next : UInt8} {c : Char}
variable {i j stop depth opening : Nat}

/-! ## Pairs of apostrophes -/

/-- **Two apostrophes are a pair**: the one at `j` is the first behind the one at `i`, at most nine
bytes away, in the range and on the same line. -/
structure Paired (src : Bytes) (stop i j : Nat) : Prop where
  lt : i < j
  near : j < min stop (i + 10)
  atEnd : src[j]? = some 0x27
  between : ∀ n, i < n → n < j → src[n]? ≠ some 0x27 ∧ src[n]? ≠ some Bytes.newline

/-- What is paired is passed together. -/
theorem Paired.skipChar_eq (h : Paired src stop i j) (hat : src[i]? = some 0x27) :
    (skipChar src i stop).1 = j + 1 := by
  have hsize := (Array.getElem?_eq_some_iff.mp h.atEnd).1
  have hfind : src.find [0x27] (i + 1) (min stop (i + 10)) = some j :=
    Bytes.find_eq_some_iff.mpr ⟨⟨h.lt, Nat.le_min.mpr ⟨h.near, hsize⟩,
      Bytes.hasAt_singleton.mpr h.atEnd⟩, fun n hin hnj hat =>
        (h.between n hin hnj).1 (Bytes.hasAt_singleton.mp hat)⟩
  rw [skipChar_val, hfind]
  refine if_neg fun hline => ?_
  obtain ⟨n, hin, hnj, hn⟩ := Bytes.contains_slice.mp hline
  rcases Nat.eq_or_lt_of_le hin with rfl | hin
  · rw [hat] at hn
    exact absurd (Option.some.inj hn) (by decide)
  · exact (h.between n hin hnj).2 hn

/-- An apostrophe that is not paired is passed alone. -/
theorem skipChar_unpaired (h : ∀ j, ¬ Paired src stop i j) :
    (skipChar src i stop).1 = i + 1 := by
  rw [skipChar_val]
  split
  · next j hj =>
    refine if_pos (Decidable.byContradiction fun hline => h j ?_)
    obtain ⟨⟨hlt, hnear, hend⟩, hfirst⟩ := Bytes.find_eq_some_iff.mp hj
    exact
      { lt := hlt
        near := (Nat.le_min.mp hnear).1
        atEnd := Bytes.hasAt_singleton.mp hend
        between := fun n hin hnj =>
          ⟨fun hat => hfirst n hin hnj (Bytes.hasAt_singleton.mpr hat), fun hat =>
            hline (Bytes.contains_slice.mpr ⟨n, Nat.le_of_lt hin, hnj, hat⟩)⟩ }
  · rfl

/-- A text without apostrophes and newlines, between two apostrophes. -/
theorem Paired.of_spells (h : src.Spells (0x27 :: (text ++ [0x27])) i)
    (hquote : 0x27 ∉ text) (hline : Bytes.newline ∉ text) (hnear : text.length < 9)
    (hlt : i + 1 + text.length < stop) : Paired src stop i (i + 1 + text.length) where
  lt := by omega
  near := by omega
  atEnd := h.tail.right.head
  between n hin hnj := by
    obtain ⟨m, rfl⟩ := Nat.exists_eq_add_of_lt hin
    have hm : m < text.length := by omega
    have hat := h.tail.left.getElem? hm
    rw [Nat.add_right_comm] at hat
    rw [hat]
    exact ⟨fun heq => hquote (List.mem_of_getElem? heq),
      fun heq => hline (List.mem_of_getElem? heq)⟩

theorem stepsTo_pair (hat : src[i]? = some 0x27) (hpair : Paired src stop i j) :
    StepsTo src k stop i depth (j + 1) depth := by
  have hlt := hpair.lt
  have hnear := hpair.near
  have hsize := (Array.getElem?_eq_some_iff.mp hpair.atEnd).1
  have hnext : src[i + 1]? = some src[i + 1] := Array.getElem?_eq_getElem (by omega)
  refine ⟨by omega, skipChar src i stop, hpair.skipChar_eq hat, ?_⟩
  rw [bracketStep, bind_of_eq (byteAt_of_eq hat),
    bind_of_eq (byteAfter_of_eq hnext (by omega))]
  rfl

theorem stepsTo_unpaired (hat : src[i]? = some 0x27) (hnext : src[i + 1]? = some next)
    (hlt : i + 1 < stop) (hpair : ∀ j, ¬ Paired src stop i j) :
    StepsTo src k stop i depth (i + 1) depth := by
  refine ⟨by omega, skipChar src i stop, skipChar_unpaired hpair, ?_⟩
  rw [bracketStep, bind_of_eq (byteAt_of_eq hat), bind_of_eq (byteAfter_of_eq hnext hlt)]
  rfl

/-! ## The bytes of a character -/

/-- **An ASCII byte of a character** is the whole character. -/
theorem toNat_of_mem_utf8EncodeChar (h : b ∈ String.utf8EncodeChar c) (hb : b < 0x80) :
    c.toNat = b.toNat := by
  have hc : c.toNat = c.val.toNat := rfl
  simp only [String.utf8EncodeChar] at h
  split at h
  · next hascii =>
    rw [List.mem_singleton.mp h, UInt8.toNat_ofNat', Nat.mod_eq_of_lt (by omega), hc]
  · -- all bytes of the other characters have their highest bit set
    have hhigh : ∀ {n m : Nat}, 128 ≤ m → n + m < 256 → b ≠ UInt8.ofNat (n + m) := by
      rintro n m hm hlt rfl
      rw [UInt8.lt_iff_toNat_lt, UInt8.toNat_ofNat', Nat.mod_eq_of_lt hlt] at hb
      exact Nat.not_lt.mpr (Nat.le_add_left_of_le hm) hb
    exfalso
    split at h
    · simp only [List.mem_cons, List.not_mem_nil, or_false] at h
      rcases h with h | h <;> exact hhigh (by decide) (by omega) h
    split at h
    · simp only [List.mem_cons, List.not_mem_nil, or_false] at h
      rcases h with h | h | h <;> exact hhigh (by decide) (by omega) h
    · simp only [List.mem_cons, List.not_mem_nil, or_false] at h
      rcases h with h | h | h | h <;> exact hhigh (by decide) (by omega) h

/-- A character is not spelled with the bytes of another ASCII character. -/
theorem not_mem_utf8EncodeChar {d : Char} (hd : d.toNat < 0x80) (hne : c ≠ d) :
    UInt8.ofNat d.toNat ∉ String.utf8EncodeChar c := by
  intro hin
  have hlt : (UInt8.ofNat d.toNat).toNat = d.toNat := by
    rw [UInt8.toNat_ofNat', Nat.mod_eq_of_lt (by omega)]
  have heq := toNat_of_mem_utf8EncodeChar hin (by rw [UInt8.lt_iff_toNat_lt, hlt]; exact hd)
  exact hne (Char.toNat_inj.mp (heq.trans hlt))

/-! ## Literals and plain bytes -/

/-- **A piece of code with character literals**: a plain byte, a character between apostrophes or
an escaped byte between apostrophes. -/
inductive Piece
  | byte (b : UInt8)
  | character (c : Char)
  | escape (b : UInt8)
  deriving DecidableEq

namespace Piece

/-- The bytes of a piece. -/
def bytes : Piece → List UInt8
  | byte b => [b]
  | character c => 0x27 :: (String.utf8EncodeChar c ++ [0x27])
  | escape b => 0x27 :: ([0x5C, b] ++ [0x27])

/-- **What a piece may be** between brackets of a kind. -/
def Plain (k : Bracket) : Piece → Prop
  | byte b => b ∉ [0x22, 0x27, 0x40, 0x2F, k.opener, k.closer]
  | character c => c ∉ ['\'', '\\', '\n']
  | escape b => b ≠ Bytes.newline

instance (k : Bracket) : DecidablePred (Plain k)
  | byte _ => inferInstanceAs (Decidable (_ ∉ _))
  | character _ => inferInstanceAs (Decidable (_ ∉ _))
  | escape _ => inferInstanceAs (Decidable (_ ≠ _))

/-- The bytes of a sequence of pieces. -/
def spelling (pieces : List Piece) : List UInt8 := pieces.flatMap bytes

/-- **No literal is torn**: from `i` on, the last apostrophe of an escaped one is not paired. -/
def Untorn (src : Bytes) (stop : Nat) : Nat → List Piece → Prop
  | _, [] => True
  | i, p :: rest =>
    (p = escape 0x27 → ∀ j, ¬ Paired src stop (i + 3) j) ∧ Untorn src stop (i + p.bytes.length) rest

/-- An escaped apostrophe is left at its last apostrophe. -/
theorem closingFrom_escaped (h : src.Spells (bytes (escape 0x27)) i) (hlt : i + 3 < stop) :
    (closingFrom src k opening stop depth i).map (·.1)
      = (closingFrom src k opening stop depth (i + 3)).map (·.1) := by
  have hfirst : src.Spells (0x27 :: ([0x5C] ++ [0x27])) i :=
    Bytes.Spells.left (show src.Spells ([0x27, 0x5C, 0x27] ++ [0x27]) i from h)
  have hnear : i + 1 + [(0x5C : UInt8)].length < stop := by
    rw [List.length_singleton]
    omega
  have hpair := Paired.of_spells hfirst (by decide) (by decide) (by decide) hnear
  exact (stepsTo_pair h.head hpair).closingFrom_eq

/-- **A piece is passed** in one step, or in two if it is an escaped apostrophe. -/
theorem passed {p : Piece} (hp : p.Plain k) (h : src.Spells (p.bytes ++ [next]) i)
    (hlt : i + p.bytes.length < stop)
    (huntorn : p = escape 0x27 → ∀ j, ¬ Paired src stop (i + 3) j) :
    (closingFrom src k opening stop depth i).map (·.1)
      = (closingFrom src k opening stop depth (i + p.bytes.length)).map (·.1) := by
  cases p with
  | byte b =>
    simp only [Plain, List.mem_cons, List.not_mem_nil, or_false, not_or] at hp
    obtain ⟨hstring, hquote, hsign, hslash, hbrackets⟩ := hp
    have hb : b ∉ [0x22, 0x27, k.opener, k.closer] := by
      simp only [List.mem_cons, List.not_mem_nil, or_false, not_or]
      exact ⟨hstring, hquote, hbrackets⟩
    have hopen : ¬ OpenTogether b next := fun hopen =>
      hopen.elim (fun h => hsign h.1) fun h => hslash h.1
    exact (stepsTo_byte h.head h.tail.head hlt hb hopen).closingFrom_eq
  | character c =>
    simp only [Plain, List.mem_cons, List.not_mem_nil, or_false, not_or] at hp
    have hlen : (bytes (character c)).length = (String.utf8EncodeChar c).length + 2 := by
      rw [bytes, List.length_cons, List.length_append, List.length_singleton]
    have hfour : (String.utf8EncodeChar c).length ≤ 4 :=
      String.length_utf8EncodeChar c ▸ Char.utf8Size_le_four c
    have hquote : 0x27 ∉ String.utf8EncodeChar c := not_mem_utf8EncodeChar (by decide) hp.1
    have hline : Bytes.newline ∉ String.utf8EncodeChar c :=
      not_mem_utf8EncodeChar (by decide) hp.2.2
    rw [hlen] at hlt ⊢
    have hpair : Paired src stop i (i + 1 + (String.utf8EncodeChar c).length) :=
      .of_spells h.left hquote hline (by omega) (by omega)
    rw [(stepsTo_pair h.head hpair).closingFrom_eq, Nat.add_right_comm i 1, Nat.add_assoc,
      Nat.add_assoc]
  | escape b =>
    have hlen : (bytes (escape b)).length = 4 := rfl
    rw [hlen] at hlt ⊢
    by_cases hb : b = 0x27
    · subst hb
      have hlast : src[i + 3]? = some 0x27 := h.tail.tail.tail.head
      have hnext : src[i + 3 + 1]? = some next := h.tail.tail.tail.tail.head
      rw [closingFrom_escaped h.left (by omega),
        (stepsTo_unpaired hlast hnext hlt (huntorn rfl)).closingFrom_eq]
    · have hquote : 0x27 ∉ [0x5C, b] := by
        simp only [List.mem_cons, List.not_mem_nil, or_false, not_or]
        exact ⟨by decide, Ne.symm hb⟩
      have hline : Bytes.newline ∉ [0x5C, b] := by
        simp only [List.mem_cons, List.not_mem_nil, or_false, not_or]
        exact ⟨by decide, Ne.symm hp⟩
      have htwo : [0x5C, b].length = 2 := rfl
      have hpair : Paired src stop i (i + 1 + [0x5C, b].length) :=
        .of_spells h.left hquote hline (by omega) (by omega)
      exact (stepsTo_pair h.head hpair).closingFrom_eq

/-- **Pieces are passed** if no literal is torn. -/
theorem spelling_passed {pieces : List Piece} (hplain : ∀ p ∈ pieces, p.Plain k)
    (h : src.Spells (spelling pieces ++ [next]) i) (hlt : i + (spelling pieces).length < stop)
    (huntorn : Untorn src stop i pieces) :
    (closingFrom src k opening stop depth i).map (·.1)
      = (closingFrom src k opening stop depth (i + (spelling pieces).length)).map (·.1) := by
  induction pieces generalizing i with
  | nil => rfl
  | cons p pieces ih =>
    obtain ⟨hp, hplain⟩ := List.forall_mem_cons.mp hplain
    have hsplit : spelling (p :: pieces) = p.bytes ++ spelling pieces := List.flatMap_cons
    rw [hsplit, List.append_assoc] at h
    rw [hsplit, List.length_append, ← Nat.add_assoc] at hlt ⊢
    have hpiece : src.Spells (p.bytes ++ [(spelling pieces).headD next]) i :=
      Bytes.spells_append.mpr ⟨h.left, Bytes.spells_cons.mpr ⟨h.right.first, Bytes.spells_nil⟩⟩
    rw [passed hp hpiece (by omega) huntorn.1, ih hplain h.right hlt huntorn.2]

end Piece

open Piece (spelling Untorn escape)

/-! ## The closing bracket -/

/-- **Character literals between brackets**: if no escaped apostrophe is torn, the closing bracket
is found. At the first one that is, the search goes on behind the apostrophe it is paired with,
so that no bracket before that is found. -/
theorem closing_characters {pieces : List Piece} (hplain : ∀ p ∈ pieces, p.Plain k)
    (h : src.Spells (k.opener :: (spelling pieces ++ [k.closer])) i)
    (hlt : i + 1 + (spelling pieces).length < stop)
    (hbehind : i + 1 + (spelling pieces).length + 1 < stop →
      i + 1 + (spelling pieces).length + 1 < src.size) :
    (Untorn src stop (i + 1) pieces →
      (closing src i stop).map (·.1) = .ok (i + 1 + (spelling pieces).length))
    ∧ ∀ front rest j, pieces = front ++ escape 0x27 :: rest → Untorn src stop (i + 1) front →
      Paired src stop (i + 1 + (spelling front).length + 3) j →
      (closing src i stop).map (·.1) = (closingFrom src k i stop 1 (j + 1)).map (·.1)
        ∧ ∀ n, (closing src i stop).map (·.1) = .ok n → j < n := by
  refine ⟨fun huntorn => ?_, ?_⟩
  · calc (closing src i stop).map (·.1)
      _ = (closingFrom src k i stop 1 (i + 1)).map (·.1) := closing_eq_closingFrom h.head
      _ = (closingFrom src k i stop 1 (i + 1 + (spelling pieces).length)).map (·.1) :=
        Piece.spelling_passed hplain h.tail hlt huntorn
      _ = .ok (i + 1 + (spelling pieces).length) :=
        closingFrom_last h.tail.right.head hlt hbehind
  · rintro front rest j rfl huntorn hpair
    have hsplit : spelling (front ++ escape 0x27 :: rest)
        = spelling front ++ ((escape 0x27).bytes ++ spelling rest) := by
      rw [spelling, List.flatMap_append, List.flatMap_cons]
      rfl
    have hfront : ∀ p ∈ front, p.Plain k := fun p hp => hplain p (List.mem_append_left _ hp)
    have hliteral := h.tail.left
    rw [hsplit] at hliteral
    rw [hsplit, List.length_append, List.length_append] at hlt
    have hfour : ((escape 0x27).bytes).length = 4 := rfl
    have hnext : src.Spells (spelling front ++ [0x27]) (i + 1) :=
      Bytes.spells_append.mpr ⟨hliteral.left,
        Bytes.spells_cons.mpr ⟨hliteral.right.head, Bytes.spells_nil⟩⟩
    have hlast : src[i + 1 + (spelling front).length + 3]? = some 0x27 :=
      hliteral.right.left.tail.tail.tail.head
    have hresumes : (closing src i stop).map (·.1)
        = (closingFrom src k i stop 1 (j + 1)).map (·.1) :=
      calc (closing src i stop).map (·.1)
        _ = (closingFrom src k i stop 1 (i + 1)).map (·.1) := closing_eq_closingFrom h.head
        _ = (closingFrom src k i stop 1 (i + 1 + (spelling front).length)).map (·.1) :=
          Piece.spelling_passed hfront hnext (by omega) huntorn
        _ = (closingFrom src k i stop 1 (i + 1 + (spelling front).length + 3)).map (·.1) :=
          Piece.closingFrom_escaped hliteral.right.left (by omega)
        _ = (closingFrom src k i stop 1 (j + 1)).map (·.1) :=
          (stepsTo_pair hlast hpair).closingFrom_eq
    refine ⟨hresumes, fun n hn => ?_⟩
    obtain ⟨⟨n, hbehind, -⟩, -, rfl⟩ := Answers.exists_of_map (hresumes.symm.trans hn)
    exact hbehind

/-- The pieces of `'}'+'\''`. -/
def bracePieces : List Piece := [.character '}', .byte 0x2B, .escape 0x27]

/-- The pieces of `'\''+'{'`. -/
def tornPieces : List Piece := [.escape 0x27, .byte 0x2B, .character '{']

/-- A source of pieces between braces. -/
def braced (pieces : List Piece) : Bytes := (0x7B :: (spelling pieces ++ [0x7D])).toArray

/-- In `{'}'+'\''}` the last brace is found; in `{'\''+'{'}` the search goes on inside the
second literal. -/
theorem closing_characters_brace :
    (∀ p ∈ bracePieces, p.Plain .curly) ∧ (∀ p ∈ tornPieces, p.Plain .curly)
      ∧ (closing (braced bracePieces) 0 10).map (·.1) = .ok 9
      ∧ (closing (braced tornPieces) 0 10).map (·.1)
        = (closingFrom (braced tornPieces) .curly 0 10 1 7).map (·.1) := by
  have hplain : ∀ p ∈ bracePieces, p.Plain .curly := by decide
  have htorn : ∀ p ∈ tornPieces, p.Plain .curly := by decide
  have hspells : (braced bracePieces).Spells (0x7B :: (spelling bracePieces ++ [0x7D])) 0 := by
    decide +kernel
  have hspells' : (braced tornPieces).Spells (0x7B :: (spelling tornPieces ++ [0x7D])) 0 := by
    decide +kernel
  have hlone : ∀ j, ¬ Paired (braced bracePieces) 10 8 j := by
    rintro j ⟨hlt, hnear, hat, -⟩
    obtain rfl : j = 9 := by omega
    revert hat
    decide +kernel
  have huntorn : Untorn (braced bracePieces) 10 (0 + 1) bracePieces :=
    ⟨(nomatch ·), (nomatch ·), fun _ => hlone, trivial⟩
  have hpair : Paired (braced tornPieces) 10 4 6 :=
    { lt := by decide
      near := by decide
      atEnd := by decide +kernel
      between := fun n hin hnj => by
        obtain rfl : n = 5 := by omega
        decide +kernel }
  exact ⟨hplain, htorn,
    (closing_characters hplain hspells (by decide +kernel) (by decide +kernel)).1 huntorn,
    ((closing_characters htorn hspells' (by decide +kernel) (by decide +kernel)).2
      [] [.byte 0x2B, .character '{'] 6 rfl trivial hpair).1⟩

/-- **A torn literal**: in `{'\''+'{'}` the brace of the second literal is counted, and the
block is not closed. -/
theorem closing_characters_torn :
    (∀ p ∈ tornPieces, p.Plain .curly)
      ∧ (braced tornPieces).Spells (0x7B :: (spelling tornPieces ++ [0x7D])) 0
      ∧ (closing (braced tornPieces) 0 10).map (·.1) = .error (.unterminated .block 0)
      ∧ ¬ ∀ (src : Bytes) (k : Bracket) (pieces : List Piece) (i stop : Nat),
        (∀ p ∈ pieces, p.Plain k) → src.Spells (k.opener :: (spelling pieces ++ [k.closer])) i →
        i + 1 + (spelling pieces).length < stop → stop ≤ src.size →
        (closing src i stop).map (·.1) = .ok (i + 1 + (spelling pieces).length) := by
  have hplain : ∀ p ∈ tornPieces, p.Plain .curly := by decide
  have hspells : (braced tornPieces).Spells (0x7B :: (spelling tornPieces ++ [0x7D])) 0 := by
    decide +kernel
  have hclosing : (closing (braced tornPieces) 0 10).map (·.1)
      = .error (.unterminated .block 0) := by
    decide +kernel
  refine ⟨hplain, hspells, hclosing, fun hall => ?_⟩
  have hclosed := hall _ .curly tornPieces 0 10 hplain hspells (by decide +kernel)
    (by decide +kernel)
  rw [hclosing] at hclosed
  cases hclosed

end SyntaxForest.Template.Lexical
