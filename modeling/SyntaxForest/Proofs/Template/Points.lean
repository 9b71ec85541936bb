import SyntaxForest.Proofs.LineIndex
import SyntaxForest.Proofs.Template.Recorded

/-!
# Points of parsed text as positions of the file

A parser counts rows and columns in the text that it is given. The markup is parsed from a
view as long as the file, a part of the code from a text of its own, which may have a wrapper
in front of it. `LinesOf` says what such a text has in common with the file: from the wrapper's
end on, its newlines are those of the file from the part's start on. Then one move by bytes,
rows and, on the first row, columns takes the points of the text to the positions that the line
index gives (`LinesOf.spanProperties_eq`).

A converted tree has the moved points of native nodes only (`Conversion.exists_below`).
-/

namespace SyntaxForest

open Template Bytes

/-! ## Points -/

/-- **The point of an offset**: the newlines before it, and the bytes since the last one. -/
def Bytes.pointAt (text : Bytes) (o : Nat) : Point := ⟨text.newlinesBefore o, o - text.lineStart o⟩

/-- **Whether a parse node lies in a text** and has the points of its bytes. -/
def ParseNode.pointed (text : Bytes) (n : ParseNode) : Bool :=
  n.start ≤ n.stop && n.stop ≤ text.size
    && n.startPoint = text.pointAt n.start && n.stopPoint = text.pointAt n.stop

theorem ParseNode.pointed_iff {text : Bytes} {n : ParseNode} : n.pointed text = true
    ↔ n.start ≤ n.stop ∧ n.stop ≤ text.size
      ∧ n.startPoint = text.pointAt n.start ∧ n.stopPoint = text.pointAt n.stop := by
  unfold ParseNode.pointed
  simp only [Bool.and_eq_true, decide_eq_true_iff, and_assoc]

namespace ParseTree

mutual

/-- **Whether a parse tree has the points of its bytes** at every node, and no node begins
before the one that it is below. -/
def pointed (text : Bytes) : ParseTree → Bool
  | .node head children => head.pointed text && pointedAll text head.start children

/-- Whether trees have the points of their bytes and begin no earlier than `low`. -/
def pointedAll (text : Bytes) (low : Nat) : List ParseTree → Bool
  | [] => true
  | t :: rest => low ≤ t.head.start && t.pointed text && pointedAll text low rest

end

variable {text : Bytes} {t : ParseTree} {low : Nat} {ts : List ParseTree}

theorem pointed_iff : t.pointed text = true
    ↔ t.head.pointed text = true ∧ pointedAll text t.head.start t.children = true := by
  cases t with
  | node head children => exact Bool.and_eq_true_iff

theorem pointedAll_cons : pointedAll text low (t :: ts) = true
    ↔ (low ≤ t.head.start ∧ t.pointed text = true) ∧ pointedAll text low ts = true := by
  rw [pointedAll, Bool.and_eq_true, Bool.and_eq_true, decide_eq_true_iff]

end ParseTree

/-! ## Where converted nodes come from -/

namespace Conversion

variable {describe : Describe} {src text : Bytes} {shift : Shift}

mutual

/-- **Each node of a converted tree is the conversion of a native node**, which begins no
earlier than the tree does. -/
theorem exists_below (e : Bool) : ∀ t : ParseTree, t.pointed text = true →
    ∀ u ∈ (below describe src shift e t).root.preorder, ∃ e' t', t'.pointed text = true
      ∧ t.head.start ≤ t'.head.start ∧ u = (below describe src shift e' t').root
  | .node head children => by
    intro h u hu
    rw [Tree.preorder_eq, List.mem_cons] at hu
    rcases hu with rfl | hu
    · exact ⟨e, _, h, Nat.le_refl _, rfl⟩
    · unfold below at hu
      exact exists_below_of_mem (e || head.error) children head.start
        (ParseTree.pointed_iff.mp h).2 u hu

/-- The nodes of several converted trees are conversions as well, of native nodes that begin no
earlier than the first. -/
theorem exists_below_of_mem (e : Bool) : ∀ (ts : List ParseTree) (low : Nat),
    ParseTree.pointedAll text low ts = true →
    ∀ u ∈ Tree.preorderAll (allBelow describe src shift e ts).1, ∃ e' t', t'.pointed text = true
      ∧ low ≤ t'.head.start ∧ u = (below describe src shift e' t').root
  | [] => fun _ _ _ hu => nomatch hu
  | .node head children :: rest => by
    intro low h u hu
    obtain ⟨⟨hlow, hself⟩, hrest⟩ := ParseTree.pointedAll_cons.mp h
    have later := exists_below_of_mem e rest low hrest
    unfold allBelow at hu
    dsimp only at hu
    split at hu
    · rw [Tree.preorderAll_cons, List.mem_append] at hu
      rcases hu with hu | hu
      · obtain ⟨e', t', ht', hle, rfl⟩ := exists_below e (.node head children) hself u hu
        exact ⟨e', t', ht', Nat.le_trans hlow hle, rfl⟩
      · exact later u hu
    · exact later u hu

end

end Conversion

/-! ## Lines of a text and lines of the file -/

/-- **The lines of a text are those of the file** from the place on at which the text's lead
ends and a part of the file begins. -/
structure LinesOf (src : Bytes) (start : Nat) (lead : Nat) (text : Bytes) : Prop where
  lead_le : lead ≤ text.size
  stop_le : start + (text.size - lead) ≤ src.size
  /-- The lead is on one line. -/
  lead_line : ∀ i < lead, text[i]? ≠ some newline
  newline_iff : ∀ j, lead + j < text.size →
    (text[lead + j]? = some newline ↔ src[start + j]? = some newline)

namespace LinesOf

variable {src text : Bytes} {start lead : Nat}

/-- The lead is passed without a new line. -/
theorem lead_start (h : LinesOf src start lead text) :
    text.newlinesBefore lead = 0 ∧ text.lineStart lead = 0 := by
  suffices ∀ i ≤ lead, text.newlinesBefore i = 0 ∧ text.lineStart i = 0 from
    this lead (Nat.le_refl _)
  intro i
  induction i with
  | zero => exact fun _ => ⟨rfl, rfl⟩
  | succ i ih =>
    intro hi
    rw [newlinesBefore_succ, lineStart_succ, if_neg (h.lead_line i hi), if_neg (h.lead_line i hi)]
    exact ih (Nat.le_of_succ_le hi)

/-- **Rows and line starts, step by step.** As long as no line has begun in the text, the file
is on the line of the part; after that, lines begin at the same bytes. -/
theorem walk (h : LinesOf src start lead text) {j : Nat} (hj : lead + j ≤ text.size) :
    src.newlinesBefore (start + j) = src.newlinesBefore start + text.newlinesBefore (lead + j)
      ∧ if text.newlinesBefore (lead + j) = 0
        then src.lineStart (start + j) = src.lineStart start ∧ text.lineStart (lead + j) = 0
        else src.lineStart (start + j) + lead = start + text.lineStart (lead + j) := by
  induction j with
  | zero =>
    obtain ⟨hrow, hline⟩ := h.lead_start
    rw [Nat.add_zero, Nat.add_zero, hrow, if_pos rfl]
    exact ⟨rfl, rfl, hline⟩
  | succ j ih =>
    obtain ⟨hrow, hline⟩ := ih (by omega)
    have hiff := h.newline_iff j (by omega)
    rw [← Nat.add_assoc, ← Nat.add_assoc, newlinesBefore_succ, newlinesBefore_succ, lineStart_succ,
      lineStart_succ]
    by_cases hnew : text[lead + j]? = some newline
    · rw [if_pos hnew, if_pos hnew, if_pos (hiff.mp hnew), if_pos (hiff.mp hnew), hrow,
        if_neg (by omega)]
      omega
    · rw [if_neg hnew, if_neg hnew, if_neg (mt hiff.mpr hnew), if_neg (mt hiff.mpr hnew), hrow]
      exact ⟨rfl, hline⟩

end LinesOf

/-- The move that takes the points of a text to the positions of the file. -/
def shiftTo (lines : LineIndex) (start lead : Nat) : Shift :=
  let (line, column) := lines.position start
  ⟨start - lead, line - 1, column - lead⟩

namespace LinesOf

variable {src text : Bytes} {start lead : Nat}

/-- **The point of an offset, moved, is its position in the file.** -/
theorem position_eq (h : LinesOf src start lead text) {o : Nat} (hlow : lead ≤ o)
    (ho : o ≤ text.size) :
    (LineIndex.ofSource src).position (o + (shiftTo (LineIndex.ofSource src) start lead).byte)
      = ((text.pointAt o).row + (shiftTo (LineIndex.ofSource src) start lead).row + 1,
        (text.pointAt o).column + if (text.pointAt o).row = 0
          then (shiftTo (LineIndex.ofSource src) start lead).column else 0) := by
  obtain ⟨j, rfl⟩ := Nat.exists_eq_add_of_le hlow
  obtain ⟨hrow, hline⟩ := h.walk ho
  have hstop := h.stop_le
  have hstart := src.lineStart_le start
  have hfile := src.lineStart_le (start + j)
  have htext := text.lineStart_le (lead + j)
  have hbyte : ((lead + j : Nat) : Int) + ((start : Int) - lead) = ((start + j : Nat) : Int) := by
    omega
  unfold shiftTo pointAt
  rw [LineIndex.position_eq (by omega : start ≤ src.size)]
  dsimp only
  rw [hbyte, LineIndex.position_eq (by omega : start + j ≤ src.size), hrow]
  refine Prod.ext ?_ ?_
  · dsimp only
    omega
  · dsimp only
    split at hline
    · next hzero =>
      rw [if_pos hzero]
      omega
    · next hlater =>
      rw [if_neg hlater]
      omega

/-- **A parse node's span, moved, is the one the line index gives.** -/
theorem spanProperties_eq (h : LinesOf src start lead text) {n : ParseNode}
    (hn : n.pointed text = true) (hlow : lead ≤ n.start) :
    Conversion.spanProperties n (shiftTo (LineIndex.ofSource src) start lead)
      = spanProperties (LineIndex.ofSource src)
        ⟨n.start + (shiftTo (LineIndex.ofSource src) start lead).byte,
          n.stop + (shiftTo (LineIndex.ofSource src) start lead).byte⟩ := by
  obtain ⟨hle, hstop, hfirst, hlast⟩ := ParseNode.pointed_iff.mp hn
  have hlength : (n.stop : Int) - n.start
      = n.stop + (shiftTo (LineIndex.ofSource src) start lead).byte
        - (n.start + (shiftTo (LineIndex.ofSource src) start lead).byte) := by
    omega
  unfold spanProperties Conversion.spanProperties
  dsimp only
  rw [h.position_eq hlow (Nat.le_trans hle hstop), h.position_eq (Nat.le_trans hlow hle) hstop,
    hfirst, hlast, hlength]

end LinesOf

end SyntaxForest
