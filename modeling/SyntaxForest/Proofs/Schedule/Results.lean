import Mathlib.Data.List.Basic
import Mathlib.Data.List.Perm.Basic
import SyntaxForest.Schedule

/-!
# Results in input order

A run enters results in the order in which jobs end. What restores the order of the
input is the place that each result carries: results that are entered once for each of
the first places, in whatever order, are read back as the list of values
(`ordered_eq`).
-/

namespace SyntaxForest.Schedule

variable {ρ κ : Type}

/-- **Values with their places**, in input order. -/
def indexed (values : List ρ) : List (Nat × ρ) := values.zipIdx.map Prod.swap

/-- A value stands at its index. -/
theorem mem_indexed {values : List ρ} {i : Nat} {r : ρ} :
    (i, r) ∈ indexed values ↔ values[i]? = some r := by
  rw [indexed, List.mem_map]
  constructor
  · rintro ⟨⟨v, j⟩, hmem, heq⟩
    obtain ⟨rfl, rfl⟩ := Prod.mk.inj heq
    exact List.mem_zipIdx_iff_getElem?.mp hmem
  · exact fun h => ⟨(r, i), List.mem_zipIdx_iff_getElem?.mpr h, rfl⟩

/-- The indices of a list are the numbers below its length. -/
theorem map_fst_indexed (values : List ρ) :
    (indexed values).map Prod.fst = List.range values.length := by
  rw [indexed, List.map_map, List.range_eq_range']
  exact List.zipIdx_map_snd 0 values

theorem map_snd_indexed (values : List ρ) : (indexed values).map Prod.snd = values := by
  rw [indexed, List.map_map]
  exact List.zipIdx_map_fst 0 values

/-- Values stand in the order of their places. -/
theorem indexed_pairwise (values : List ρ) :
    (indexed values).Pairwise fun a b => a.1 < b.1 := by
  have h : (List.range values.length).Pairwise (· < ·) := List.pairwise_lt_range
  rw [← map_fst_indexed, List.pairwise_map] at h
  exact h

/-- **Results of which no two have the same key** are all the latest. -/
theorem latest_of_nodup [BEq κ] [LawfulBEq κ] {results : List (κ × ρ)}
    (h : (results.map Prod.fst).Nodup) : latest results = results := by
  suffices hgo : ∀ kept : List (κ × ρ), ((kept ++ results).map Prod.fst).Nodup →
      results.foldl (fun kept r => kept.filter (·.1 != r.1) ++ [r]) kept = kept ++ results from
    hgo [] h
  induction results with
  | nil => exact fun kept _ => (List.append_nil kept).symm
  | cons r rest ih =>
    intro kept hkept
    have hfresh : kept.filter (·.1 != r.1) = kept := by
      refine List.filter_eq_self.mpr fun k hk => bne_iff_ne.mpr fun heq => ?_
      rw [List.map_append, List.map_cons, List.perm_middle.nodup_iff, List.nodup_cons] at hkept
      exact hkept.1 (List.mem_append_left _ (heq ▸ List.mem_map_of_mem hk))
    rw [List.append_cons] at hkept ⊢
    rw [List.foldl_cons, hfresh]
    exact ih (List.nodup_cons.mp h).2 _ hkept

/-- Results in the order of their places. -/
def sorted (results : List (Nat × ρ)) : List (Nat × ρ) :=
  results.mergeSort fun a b => Nat.ble a.1 b.1

/-- Sorting keeps the results. -/
theorem sorted_perm (results : List (Nat × ρ)) : (sorted results).Perm results :=
  List.mergeSort_perm ..

/-- Results with different places are strictly ordered. -/
theorem sorted_pairwise {results : List (Nat × ρ)} (h : (results.map Prod.fst).Nodup) :
    (sorted results).Pairwise fun a b => a.1 < b.1 := by
  have hle : (sorted results).Pairwise fun a b => Nat.ble a.1 b.1 = true :=
    @List.pairwise_mergeSort _ (fun a b : Nat × ρ => Nat.ble a.1 b.1)
      (fun _ _ _ hab hbc => Nat.ble_eq.mpr
        (Nat.le_trans (Nat.le_of_ble_eq_true hab) (Nat.le_of_ble_eq_true hbc)))
      (fun a b => by
        rw [Bool.or_eq_true, Nat.ble_eq, Nat.ble_eq]
        exact Nat.le_total a.1 b.1) _
  have hne : (sorted results).Pairwise fun a b => a.1 ≠ b.1 := by
    rw [← List.pairwise_map (f := Prod.fst) (R := (· ≠ ·))]
    exact ((sorted_perm results).map Prod.fst).nodup_iff.mpr h
  exact (hle.and hne).imp fun hab => Nat.lt_of_le_of_ne (Nat.le_of_ble_eq_true hab.1) hab.2

/-- Lists in strict order that have the same members are equal. -/
theorem eq_of_sorted {a b : List (Nat × ρ)} (hperm : a.Perm b)
    (ha : a.Pairwise fun x y => x.1 < y.1) (hb : b.Pairwise fun x y => x.1 < y.1) : a = b :=
  hperm.eq_of_pairwise (fun _ _ _ _ hxy hyx => absurd hyx (Nat.lt_asymm hxy)) ha hb

/-- **The results of a run in input order** are the values, in whatever order they were
entered. -/
theorem ordered_eq {run : Run ρ} {values : List ρ} (h : run.results.Perm (indexed values)) :
    run.ordered = values := by
  have hkeys : (run.results.map Prod.fst).Nodup := by
    rw [(h.map Prod.fst).nodup_iff, map_fst_indexed]
    exact List.nodup_range
  have hsorted : sorted run.results = indexed values :=
    eq_of_sorted ((sorted_perm _).trans h) (sorted_pairwise hkeys) (indexed_pairwise values)
  rw [Run.ordered, inOrder, latest_of_nodup hkeys]
  show (sorted run.results).map Prod.snd = values
  rw [hsorted, map_snd_indexed]

/-- **Results for the first places** are values with their places. -/
theorem exists_indexed {results : List (Nat × ρ)} {k : Nat}
    (h : (results.map Prod.fst).Perm (List.range k)) :
    ∃ values : List ρ, values.length = k ∧ results.Perm (indexed values) := by
  have hkeys : (sorted results).map Prod.fst = List.range k := by
    refine (((sorted_perm results).map _).trans h).eq_of_pairwise
      (fun a b _ _ (hab : a < b) (hba : b < a) => absurd hba (Nat.lt_asymm hab)) ?_
      List.pairwise_lt_range
    rw [List.pairwise_map]
    exact sorted_pairwise (h.nodup_iff.mpr List.nodup_range)
  have hlength : ((sorted results).map Prod.snd).length = k := by
    rw [List.length_map, ← List.length_map (f := Prod.fst), hkeys, List.length_range]
  refine ⟨(sorted results).map Prod.snd, hlength, (sorted_perm results).symm.trans (.of_eq ?_)⟩
  -- both lists have the same places and the same values
  have hzip : ∀ l : List (Nat × ρ), l = (l.map Prod.fst).zip (l.map Prod.snd) := fun l => by
    rw [← List.unzip_fst, ← List.unzip_snd, List.zip_unzip]
  rw [hzip (indexed _), map_fst_indexed, map_snd_indexed, hlength, ← hkeys]
  exact hzip _

end SyntaxForest.Schedule
