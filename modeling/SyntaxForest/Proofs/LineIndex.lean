import Mathlib.Data.Nat.Count
import SyntaxForest.Bytes

/-!
# Lines and columns count newlines

`LineIndex.position` looks an offset up among the line starts. What it finds is a count:
the line is one more than the number of newlines before the offset, and the column is the
distance to the place just past the last of them (`position_eq`).
-/

namespace SyntaxForest

namespace Bytes

/-- **The number of newlines before an offset.** -/
def newlinesBefore (src : Bytes) (o : Nat) : Nat := Nat.count (fun i => src[i]? = some newline) o

/-- **Where the line of an offset begins**: just past the last newline before it. -/
def lineStart (src : Bytes) : Nat → Nat
  | 0 => 0
  | o + 1 => if src[o]? = some newline then o + 1 else lineStart src o

variable {src : Bytes} {o : Nat}

theorem newlinesBefore_succ (src : Bytes) (o : Nat) : src.newlinesBefore (o + 1)
    = src.newlinesBefore o + if src[o]? = some newline then 1 else 0 := Nat.count_succ ..

theorem lineStart_succ (src : Bytes) (o : Nat) : src.lineStart (o + 1)
    = if src[o]? = some newline then o + 1 else src.lineStart o := rfl

theorem lineStart_le (src : Bytes) (o : Nat) : src.lineStart o ≤ o := by
  induction o with
  | zero => exact Nat.le_refl 0
  | succ o ih =>
    rw [lineStart_succ]
    split
    · exact Nat.le_refl _
    · exact Nat.le_succ_of_le ih

end Bytes

namespace LineIndex

open Bytes

variable {src : Bytes} {o : Nat}

/-- The line starts that the bytes of a stretch make, which stands at the offset `k`. -/
def startsFrom (k : Nat) (bytes : List UInt8) : List Nat :=
  ((bytes.zipIdx k).filter fun (b, _) => b == newline).map fun (_, i) => i + 1

theorem startsFrom_append (k : Nat) (a b : List UInt8) :
    startsFrom k (a ++ b) = startsFrom k a ++ startsFrom (k + a.length) b := by
  rw [startsFrom, List.zipIdx_append, List.filter_append, List.map_append]
  rfl

theorem mem_startsFrom {k i : Nat} {bytes : List UInt8} (h : i ∈ startsFrom k bytes) :
    k < i ∧ i ≤ k + bytes.length := by
  obtain ⟨⟨b, j⟩, hmem, rfl⟩ := List.mem_map.mp h
  obtain ⟨hle, hlt, -⟩ := List.mem_zipIdx (List.mem_of_mem_filter hmem)
  exact ⟨Nat.lt_succ_of_le hle, by show j + 1 ≤ _; omega⟩

/-- **The lines that begin at or before an offset** are those that the bytes before it
make. -/
theorem takeWhile_starts (h : o ≤ src.size) :
    (ofSource src).starts.takeWhile (fun (s : Nat) => (s : Int) ≤ o)
      = 0 :: startsFrom 0 (src.toList.take o) := by
  have hlength : (src.toList.take o).length = o := by
    rw [List.length_take, Array.length_toList, Nat.min_eq_left h]
  have hsplit : (ofSource src).starts
      = 0 :: (startsFrom 0 (src.toList.take o) ++ startsFrom o (src.toList.drop o)) := by
    show 0 :: startsFrom 0 src.toList = _
    conv_lhs => rw [← List.take_append_drop o src.toList]
    rw [startsFrom_append, hlength, Nat.zero_add]
  rw [hsplit, List.takeWhile_cons_of_pos (by simp)]
  congr 1
  rw [List.takeWhile_append_of_pos fun s hs => ?_]
  · have hnone : (startsFrom o (src.toList.drop o)).takeWhile
        (fun (s : Nat) => (s : Int) ≤ o) = [] := by
      cases hlater : startsFrom o (src.toList.drop o) with
      | nil => rfl
      | cons s rest =>
        have := mem_startsFrom (hlater ▸ List.mem_cons_self : s ∈ startsFrom o _)
        exact List.takeWhile_cons_of_neg (by simp; omega)
    rw [hnone, List.append_nil]
  · have := mem_startsFrom hs
    rw [decide_eq_true_iff]
    omega

/-- The lines that have begun are counted by the newlines, and the last of them is the one
that the offset is on. -/
theorem startsFrom_take (h : o ≤ src.size) :
    (0 :: startsFrom 0 (src.toList.take o)).length = 1 + src.newlinesBefore o
      ∧ (0 :: startsFrom 0 (src.toList.take o)).getLast? = some (src.lineStart o) := by
  induction o with
  | zero => exact ⟨rfl, rfl⟩
  | succ o ih =>
    obtain ⟨hcount, hlast⟩ := ih (Nat.le_of_succ_le h)
    have hbyte : src.toList[o]? = src[o]? := Array.getElem?_toList ..
    obtain ⟨b, hb⟩ : ∃ b, src[o]? = some b := ⟨_, Array.getElem?_eq_getElem h⟩
    have htake : src.toList.take (o + 1) = src.toList.take o ++ [b] := by
      rw [List.take_add_one, hbyte, hb]
      rfl
    have hlength : (src.toList.take o).length = o := by
      rw [List.length_take, Array.length_toList]
      omega
    rw [htake, startsFrom_append, hlength, Nat.zero_add, newlinesBefore_succ, lineStart_succ, hb,
      ← List.cons_append]
    by_cases hline : b = newline
    · have hone : startsFrom o [b] = [o + 1] := by rw [hline]; rfl
      rw [hone, hline, if_pos rfl, if_pos rfl, List.length_append, hcount, List.getLast?_concat]
      exact ⟨rfl, rfl⟩
    · have hne : some b ≠ some newline := fun heq => hline (Option.some.inj heq)
      have hnone : startsFrom o [b] = [] := by
        rw [startsFrom, List.zipIdx_cons, List.zipIdx_nil,
          List.filter_cons_of_neg (by simpa using hline)]
        rfl
      rw [hnone, if_neg hne, if_neg hne, List.append_nil]
      exact ⟨hcount, hlast⟩

/-- **The position of an offset**: one more than the newlines before it, and the bytes since
the last of them. -/
theorem position_eq (h : o ≤ src.size) : (ofSource src).position o
    = (1 + (src.newlinesBefore o : Int), (o : Int) - src.lineStart o) := by
  obtain ⟨hcount, hlast⟩ := startsFrom_take h
  unfold position
  rw [takeWhile_starts h, hlast, hcount]
  simp

end LineIndex

end SyntaxForest
