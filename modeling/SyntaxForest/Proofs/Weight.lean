import Mathlib.Data.List.Nodup
import SyntaxForest.Proofs.Template.Kept
import SyntaxForest.Proofs.Template.Views

/-!
# What the errors of a conversion weigh

A source is weighed by its content, the bytes that are not white space, and a conversion weighs
each error that is not inside another one. In a nested tree these errors have no byte in common
(`ParseTree.faults_chain`), so their weights add up to the number of content bytes that lie in
one of them (`ParseTree.convert_errorBytes`): no byte of one text is counted twice.

Counting is done over offsets. A stretch of a source has the content of the source that lies in
it, moved to its start, and so has a view of the source that shows some of its bytes
(`Bytes.contentOffsets_perm`).
-/

namespace SyntaxForest

open Template (Range)
open Template.Range (Chain)

/-- What either counts, and what both count. -/
theorem countP_add_countP {α : Type} (p q : α → Bool) (things : List α) :
    things.countP p + things.countP q
      = things.countP (fun a => p a || q a) + things.countP fun a => p a && q a := by
  induction things with
  | nil => rfl
  | cons a rest ih =>
    simp only [List.countP_cons]
    cases p a <;> cases q a <;> simp <;> omega

/-- Things of which each is counted by one owner at most are counted once by all of them. -/
theorem sum_countP_eq {ρ α : Type} {owners : List ρ} {things : List α} {p : ρ → α → Bool}
    (h : ∀ a ∈ things, owners.countP (p · a) ≤ 1) :
    (owners.map fun r => things.countP (p r)).sum = things.countP fun a => owners.any (p · a) := by
  induction owners with
  | nil => exact (List.countP_eq_zero.mpr fun _ _ => Bool.false_ne_true).symm
  | cons r rest ih =>
    have hrest : ∀ a ∈ things, rest.countP (p · a) ≤ 1 := fun a ha =>
      Nat.le_trans ((List.sublist_cons_self r rest).countP_le) (h a ha)
    have hboth : things.countP (fun a => p r a && rest.any (p · a)) = 0 := by
      refine List.countP_eq_zero.mpr fun a ha hboth => ?_
      obtain ⟨hself, hother⟩ := Bool.and_eq_true_iff.mp hboth
      have hpos := List.countP_pos_iff.mpr (List.any_eq_true.mp hother)
      have hle := h a ha
      rw [List.countP_cons_of_pos (p := (p · a)) hself] at hle
      omega
    rw [List.map_cons, List.sum_cons, ih hrest, countP_add_countP, hboth]
    rfl

/-- An offset is in one at most of several ranges that are disjoint. -/
theorem Template.Range.countP_has_le_one {ranges : List Range}
    (h : ranges.Pairwise Range.Disjoint) (i : Nat) : ranges.countP (·.has i) ≤ 1 := by
  induction h with
  | nil => exact Nat.zero_le 1
  | @cons r rest hself _ ih =>
    cases hr : r.has i with
    | false => rwa [List.countP_cons, if_neg (by simp [hr])]
    | true =>
      have hothers : rest.countP (·.has i) = 0 :=
        List.countP_eq_zero.mpr fun s hs hsi => hself s hs i ⟨hr, hsi⟩
      rw [List.countP_cons, hothers, if_pos hr]

namespace Bytes

variable {src view : Bytes} {i start : Nat} {p : Nat → Bool}

/-- Whether there is content at an offset: a byte that is not white space. -/
def hasContent (src : Bytes) (i : Nat) : Bool := src[i]?.any fun b => !isWhite b

/-- **The offsets of the content**, in order. -/
def contentOffsets (src : Bytes) : List Nat := (List.range src.size).filter src.hasContent

theorem lt_size_of_hasContent (h : src.hasContent i = true) : i < src.size := by
  rw [hasContent, Option.any_eq_true] at h
  obtain ⟨b, hb, -⟩ := h
  exact (Array.getElem?_eq_some_iff.mp hb).1

@[simp] theorem mem_contentOffsets : i ∈ src.contentOffsets ↔ src.hasContent i = true := by
  rw [contentOffsets, List.mem_filter, List.mem_range]
  exact ⟨And.right, fun h => ⟨lt_size_of_hasContent h, h⟩⟩

theorem nodup_contentOffsets : src.contentOffsets.Nodup := List.nodup_range.filter _

/-- There is as much content as there are offsets of it. -/
theorem length_contentOffsets (src : Bytes) : src.contentOffsets.length = src.contentLength := by
  have hlist : ∀ (q : UInt8 → Bool) (l : List UInt8),
      (List.range l.length).countP (fun i => l[i]?.any q) = l.countP q := by
    intro q l
    induction l with
    | nil => rfl
    | cons b rest ih =>
      rw [List.length_cons, List.range_succ_eq_map, List.countP_cons, List.countP_map,
        List.countP_cons, ← ih]
      rfl
  rw [contentOffsets, ← List.countP_eq_length_filter, contentLength, ← Array.countP_toList,
    ← hlist, Array.length_toList]
  exact List.countP_congr fun i _ => by rw [hasContent, Array.getElem?_toList]

/-- **The content of a view** is what it shows of the content of the source. -/
theorem contentOffsets_perm
    (h : ∀ i, view.hasContent i = true
      ↔ src.hasContent (start + i) = true ∧ p (start + i) = true)
    (hp : ∀ i, p i = true → start ≤ i) :
    (view.contentOffsets.map (start + ·)).Perm (src.contentOffsets.filter p) := by
  have hinjective : Function.Injective (start + ·) := fun _ _ heq => Nat.add_left_cancel heq
  refine (List.perm_ext_iff_of_nodup (List.Nodup.map hinjective nodup_contentOffsets)
    (nodup_contentOffsets.filter _)).mpr fun i => ?_
  rw [List.mem_map, List.mem_filter, mem_contentOffsets]
  constructor
  · rintro ⟨j, hj, rfl⟩
    exact (h j).mp (mem_contentOffsets.mp hj)
  · rintro ⟨hcontent, hshown⟩
    obtain ⟨j, rfl⟩ := Nat.exists_eq_add_of_le (hp i hshown)
    exact ⟨j, mem_contentOffsets.mpr ((h j).mpr ⟨hcontent, hshown⟩), rfl⟩

/-- The content of a stretch. -/
theorem contentOffsets_slice (src : Bytes) (r : Range) :
    ((src.slice r.start r.stop).contentOffsets.map (r.start + ·)).Perm
      (src.contentOffsets.filter r.has) := by
  refine contentOffsets_perm (fun i => ?_) fun i hi => (Range.has_iff.mp hi).1
  rw [hasContent, Template.getElem?_slice, Range.has_iff]
  split
  · exact ⟨fun h => ⟨h, by omega⟩, And.left⟩
  · constructor
    · exact fun h => nomatch h
    · rintro ⟨hcontent, hin⟩
      have := lt_size_of_hasContent hcontent
      omega

theorem contentLength_slice (src : Bytes) (r : Range) :
    (src.slice r.start r.stop).contentLength = src.contentOffsets.countP r.has := by
  rw [← length_contentOffsets, List.countP_eq_length_filter,
    ← (contentOffsets_slice src r).length_eq, List.length_map]

/-- The content of several stretches. -/
def weigh (src : Bytes) (ranges : List Range) : Nat :=
  (ranges.map fun r => (src.slice r.start r.stop).contentLength).sum

theorem weigh_append (src : Bytes) (a b : List Range) :
    src.weigh (a ++ b) = src.weigh a + src.weigh b := by
  rw [weigh, List.map_append, List.sum_append]
  rfl

/-- **Stretches without a common offset** have the content that lies in one of them. -/
theorem weigh_of_disjoint {ranges : List Range} (h : ranges.Pairwise Range.Disjoint)
    (src : Bytes) : src.weigh ranges = src.contentOffsets.countP fun i => ranges.any (·.has i) := by
  rw [weigh, ← sum_countP_eq fun i _ => Range.countP_has_le_one h i]
  exact congrArg _ (List.map_congr_left fun r _ => contentLength_slice src r)

/-- Stretches in order have no offset in common. -/
theorem weigh_eq {low high : Nat} {ranges : List Range} (h : Chain low high ranges) (src : Bytes) :
    src.weigh ranges = src.contentOffsets.countP fun i => ranges.any (·.has i) :=
  weigh_of_disjoint (Range.pairwise_disjoint_of_countP fun i => h.countP_has_le_one i) src

end Bytes

namespace ParseTree

mutual

/-- **The errors that are weighed** of a tree: those that are not inside another one, as far as
they are reached through named nodes. -/
def faults : ParseTree → List Range
  | .node head children => if head.error then [⟨head.start, head.stop⟩] else faultsAll children

/-- The errors that are weighed of several trees. -/
def faultsAll : List ParseTree → List Range
  | [] => []
  | t :: rest => (if t.head.named then t.faults else []) ++ faultsAll rest

end

mutual

/-- **The errors that are weighed are in order** inside a nested tree. -/
theorem faults_chain : ∀ {t : ParseTree}, t.nested = true →
    Chain t.head.start t.head.stop t.faults
  | .node head children => by
    intro h
    unfold faults
    split
    · exact ⟨Nat.le_refl _, nestedAll_le h, Nat.le_refl _⟩
    · exact faultsAll_chain h

theorem faultsAll_chain : ∀ {ts : List ParseTree} {low high : Nat},
    nestedAll low high ts = true → Chain low high (faultsAll ts)
  | [], _, _ => nestedAll_le
  | t :: rest, low, high => by
    intro h
    obtain ⟨⟨hlow, hself⟩, hrest⟩ := nestedAll_cons.mp h
    have htail := faultsAll_chain hrest
    unfold faultsAll
    split
    · exact ((faults_chain hself).mono hlow (Nat.le_refl _)).append htail
    · exact htail.mono (Nat.le_trans hlow (nested_le hself)) (Nat.le_refl _)

end

end ParseTree

namespace Conversion

variable {describe : Describe} {src : Bytes} {shift : Shift}

mutual

theorem below_errorBytes (inside : Bool) : ∀ t : ParseTree,
    (below describe src shift inside t).errorBytes = if inside then 0 else src.weigh t.faults
  | .node head children => by
    have h := allBelow_errorBytes (inside || head.error) children
    unfold below ParseTree.faults
    dsimp only
    rw [h, weight]
    cases inside <;> cases head.error
    · exact Nat.zero_add _
    · rfl
    · rfl
    · rfl

/-- **Errors inside an error weigh nothing**, the others the content of their bytes. -/
theorem allBelow_errorBytes (inside : Bool) : ∀ ts : List ParseTree,
    (allBelow describe src shift inside ts).2.2
      = if inside then 0 else src.weigh (ParseTree.faultsAll ts)
  | [] => by
    cases inside <;> rfl
  | .node head children :: rest => by
    have hself := below_errorBytes inside (.node head children)
    have hrest := allBelow_errorBytes inside rest
    unfold allBelow ParseTree.faultsAll
    dsimp only
    by_cases hnamed : head.named = true
    · rw [if_pos hnamed, if_pos (show (ParseTree.node head children).head.named = true from hnamed),
        Bytes.weigh_append]
      dsimp only
      rw [hself, hrest]
      cases inside <;> rfl
    · rw [if_neg hnamed, if_neg (show ¬(ParseTree.node head children).head.named = true from hnamed)]
      exact hrest

end

end Conversion

/-- **The weight of the errors of a converted tree** is the content that lies in one of them. -/
theorem ParseTree.convert_errorBytes {t : ParseTree} (ht : t.nested = true) (src : Bytes)
    (describe : Describe) (shift : Shift) (kind : Option String) :
    (t.convert src describe shift kind).errorBytes
      = src.contentOffsets.countP fun i => t.faults.any (·.has i) := by
  rw [← Bytes.weigh_eq (faults_chain ht)]
  cases t with
  | node head children => exact Conversion.below_errorBytes false (.node head children)

end SyntaxForest
