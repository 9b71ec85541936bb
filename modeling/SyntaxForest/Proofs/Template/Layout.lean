import SyntaxForest.Proofs.Preorder
import SyntaxForest.Proofs.Template.Reading

/-!
# The layout of a scan

A scan yields constructs inside constructs. `Segment.LaidOut` says how one of them
lies in the source: its bodies and its runs of markup are in order inside it, each
construct of its markup lies inside one run, and its code and its runs hold each
offset of its range once. `scan_laidOut` gives that at every level of a scan.

The scanner keeps a sharper form, `Segment.Nested`, in which the constructs of
each run form a chain of their own; the rest is counting. An offset that is in a
construct's run is in none of its own code, so the code of a construct and of all
that is nested in it holds an offset once at most, and the code of a whole scan is
disjoint.
-/

namespace SyntaxForest.Template

open Range

namespace Segment

/-- **How a construct lies in the source.** -/
structure LaidOut (s : Segment) : Prop where
  nonempty : s.start < s.stop
  /-- The content and the bodies lie inside the construct. -/
  parts_inside : ∀ part ∈ s.parts, part.start ≤ part.stop ∧ part.within s.range = true
  bodies_ordered : s.bodies.Pairwise Before
  runs_ordered : s.markup.Pairwise Before
  runs_inside : ∀ run ∈ s.markup, run.start ≤ run.stop ∧ ∃ part ∈ s.parts, run.within part = true
  children_ordered : (s.children.map range).Pairwise Before
  /-- Each nested construct lies inside exactly one run. -/
  children_inside : ∀ c ∈ s.children, s.markup.countP (c.range.within ·) = 1
  /-- Code and runs together hold each offset of the construct once. -/
  tiled : ∀ i, (s.codeRanges ++ s.markup).countP (·.has i) = if s.range.has i then 1 else 0

/-- **How the scanner leaves a construct**: as it was read, with a chain of
constructs in each run. -/
structure Nested (s : Segment) : Prop where
  nonempty : s.start < s.stop
  parts_chain : Chain (s.start + 1) s.stop s.parts
  runs_chain : Chain (s.start + 1) s.stop s.markup
  runs_inside : ∀ run ∈ s.markup, ∃ part ∈ s.parts, run.within part = true
  children_chain : ∃ groups : List (List Segment), s.children = groups.flatten ∧
    List.Forall₂ (fun run group => Chain run.start run.stop (group.map range)) s.markup groups

variable {s : Segment} {scanned : List Segment}

/-! ## From the scanner's form -/

/-- The constructs of the runs, run by run, are one chain. -/
theorem Nested.ranges_chain (h : s.Nested) :
    Chain (s.start + 1) s.stop (s.children.map range) := by
  obtain ⟨groups, hchildren, hgroups⟩ := h.children_chain
  rw [hchildren, List.map_flatten]
  exact h.runs_chain.flatten (List.forall₂_map_right_iff.mpr hgroups)

/-- A nested construct lies inside a run. -/
theorem Nested.exists_run (h : s.Nested) {c : Segment} (hc : c ∈ s.children) :
    ∃ run ∈ s.markup, c.range.within run = true := by
  obtain ⟨groups, hchildren, hgroups⟩ := h.children_chain
  rw [hchildren, ← List.map_id groups] at hc
  have hranges := runs_inside_of_chain (List.forall₂_map_right_iff.mpr hgroups)
  refine hranges c.range ?_
  rw [← List.map_flatten]
  exact List.mem_map_of_mem (by simpa using hc)

/-- **The code of a construct and its runs hold each of its offsets once.** -/
theorem Nested.countP_code_add (h : s.Nested) (i : Nat) :
    s.codeRanges.countP (·.has i) + s.markup.countP (·.has i)
      = if s.range.has i then 1 else 0 := by
  rw [codeRanges, countP_gaps_add (h.runs_chain.mono (Nat.le_succ _) (Nat.le_refl _))]
  simp only [has_iff, range]

theorem Nested.laidOut (h : s.Nested) (hbelow : ∀ c ∈ s.children, c.Nested) : s.LaidOut where
  nonempty := h.nonempty
  parts_inside := by
    intro part hpart
    obtain ⟨hlow, hle, hhigh⟩ := h.parts_chain.of_mem hpart
    exact ⟨hle, within_iff.mpr ⟨Nat.le_of_succ_le hlow, hhigh⟩⟩
  bodies_ordered := (List.pairwise_append.mp h.parts_chain.pairwise).2.1
  runs_ordered := h.runs_chain.pairwise
  runs_inside := fun run hrun => ⟨(h.runs_chain.of_mem hrun).2.1, h.runs_inside run hrun⟩
  children_ordered := h.ranges_chain.pairwise
  children_inside := by
    intro c hc
    obtain ⟨run, hrun, hwithin⟩ := h.exists_run hc
    exact h.runs_chain.countP_within_eq_one (hbelow c hc).nonempty hrun hwithin
  tiled := fun i => by rw [List.countP_append, h.countP_code_add]

/-! ## Code is disjoint -/

/-- The code of several constructs and of all that is nested in them. -/
def codeAll (scanned : List Segment) : List Range := (preorderAll scanned).flatMap codeRanges

/-- The constructs in the runs hold an offset no more often than the runs do. -/
theorem countP_children_le {runs : List Range} {groups : List (List Segment)}
    (h : List.Forall₂ (fun run group => Chain run.start run.stop (group.map range)) runs groups)
    (i : Nat) : (groups.flatten.map range).countP (·.has i) ≤ runs.countP (·.has i) := by
  induction h with
  | nil => exact Nat.le_refl _
  | @cons run group runs groups hgroup _ ih =>
    rw [List.flatten_cons, List.map_append, List.countP_append, List.countP_cons]
    split
    · exact Nat.add_comm _ 1 ▸ Nat.add_le_add (hgroup.countP_has_le_one i) ih
    · next hout =>
      have hzero := hgroup.countP_has_eq_zero (i := i) (by rw [has_iff] at hout; omega)
      rw [hzero, Nat.zero_add]
      exact ih

/-- **The code below holds an offset once**, and only inside the constructs. -/
theorem countP_codeAll_le (h : ∀ s ∈ preorderAll scanned, s.Nested) (i : Nat) :
    (codeAll scanned).countP (·.has i) ≤ (scanned.map range).countP (·.has i) := by
  induction hn : sizeAll scanned using Nat.strongRecOn generalizing scanned with
  | ind n ih =>
    cases scanned with
    | nil => exact Nat.le_refl _
    | cons s rest =>
      rw [sizeAll, size_eq s] at hn
      rw [preorderAll_cons, preorder_eq] at h
      have hs : s.Nested := h s (by simp)
      have hbelow := ih (sizeAll s.children) (by omega)
        (fun c hc => h c (by simp [hc])) rfl
      have hrest := ih (sizeAll rest) (by omega) (fun c hc => h c (by simp [hc])) rfl
      have hsplit : codeAll (s :: rest) = s.codeRanges ++ codeAll s.children ++ codeAll rest := by
        rw [codeAll, preorderAll_cons, preorder_eq, List.cons_append, List.flatMap_cons,
          List.flatMap_append, List.append_assoc]
        rfl
      have hruns : (s.children.map range).countP (·.has i) ≤ s.markup.countP (·.has i) := by
        obtain ⟨groups, hchildren, hgroups⟩ := hs.children_chain
        rw [hchildren]
        exact countP_children_le hgroups i
      have hown := hs.countP_code_add i
      rw [hsplit, List.countP_append, List.countP_append, List.map_cons, List.countP_cons]
      omega

end Segment

open Segment

/-! ## The scanner -/

/-- A construct with its runs scanned. -/
theorem Segment.Read.nested {mark next : Nat} {s : Segment} {groups : List (List Segment)}
    (h : s.Read mark next)
    (hgroups : List.Forall₂ (fun run group => Chain run.start run.stop (group.map range))
      s.markup groups) :
    Segment.Nested { s with children := groups.flatten } where
  nonempty := by
    rw [h.start_eq]
    exact h.runs_chain.le
  parts_chain := h.start_eq ▸ h.parts_chain
  runs_chain := h.start_eq ▸ h.runs_chain
  runs_inside := h.runs_inside
  children_chain := ⟨groups, rfl, hgroups⟩

/-- What is asked of the constructs of a stretch of markup. -/
def Scanned (cursor stop : Nat) (found : List Segment) : Prop :=
  Chain cursor stop (found.map range) ∧ ∀ s ∈ preorderAll found, s.Nested

theorem Scanned.mono {cursor cursor' stop : Nat} {found : List Segment}
    (h : Scanned cursor stop found) (hc : cursor' ≤ cursor) : Scanned cursor' stop found :=
  ⟨h.1.mono hc (Nat.le_refl _), h.2⟩

/-- The constructs nested in another one are scanned inside it. -/
theorem Scanned.children {cursor stop : Nat} {found : List Segment}
    (h : Scanned cursor stop found) {s : Segment} (hs : s ∈ found) :
    Scanned (s.start + 1) s.stop s.children :=
  ⟨(h.2 s (mem_preorderAll_of_mem hs)).ranges_chain,
    fun t ht => h.2 t (mem_preorderAll.mpr ⟨s, hs, .inr ht⟩)⟩

/-- A nested construct lies inside the outer one, behind its start. -/
theorem Scanned.child_bounds {cursor stop : Nat} {found : List Segment}
    (h : Scanned cursor stop found) {s c : Segment} (hs : s ∈ preorderAll found)
    (hc : c ∈ s.children) : s.start < c.start ∧ c.start < c.stop ∧ c.stop ≤ s.stop := by
  have hmem := mem_preorderAll_trans hs (mem_preorderAll_of_mem hc)
  have hinside := (h.2 s hs).ranges_chain.of_mem (List.mem_map_of_mem hc)
  exact ⟨hinside.1, (h.2 c hmem).nonempty, hinside.2.2⟩

/-- The constructs behind another one are scanned behind it. -/
theorem Scanned.tail {cursor stop : Nat} {s : Segment} {rest : List Segment}
    (h : Scanned cursor stop (s :: rest)) : Scanned s.stop stop rest :=
  ⟨h.1.2.2, fun t ht => h.2 t (by rw [preorderAll_cons]; exact List.mem_append_right _ ht)⟩

/-- What is nested in the constructs lies inside the stretch as well. -/
theorem Scanned.bounds {cursor stop : Nat} {found : List Segment}
    (h : Scanned cursor stop found) {s : Segment} (hs : s ∈ preorderAll found) :
    cursor ≤ s.start ∧ s.stop ≤ stop := by
  induction hn : sizeAll found using Nat.strongRecOn generalizing found cursor stop with
  | ind n ih =>
    obtain ⟨u, hu, hsu⟩ := mem_preorderAll.mp hs
    have hbounds := h.1.of_mem (List.mem_map_of_mem hu)
    change cursor ≤ u.start ∧ u.start ≤ u.stop ∧ u.stop ≤ stop at hbounds
    rcases hsu with rfl | hsu
    · exact ⟨hbounds.1, hbounds.2.2⟩
    · have hlt : sizeAll u.children < n := hn ▸ sizeAll_children_lt hu
      have := ih _ hlt (h.children hu) hsu rfl
      omega

/-- A construct and what is nested in it lie inside it. -/
theorem Scanned.preorder_bounds {cursor stop : Nat} {found : List Segment}
    (h : Scanned cursor stop found) {s t : Segment} (hs : s ∈ found) (ht : t ∈ s.preorder) :
    s.start ≤ t.start ∧ t.stop ≤ s.stop := by
  rw [preorder_eq, List.mem_cons] at ht
  rcases ht with rfl | ht
  · exact ⟨Nat.le_refl _, Nat.le_refl _⟩
  · have := (h.children hs).bounds ht
    omega

/-- **A construct that begins inside another lies in one of its runs.** -/
theorem Scanned.exists_run {cursor stop : Nat} {found : List Segment}
    (h : Scanned cursor stop found) {d c : Segment} (hd : d ∈ preorderAll found)
    (hc : c ∈ preorderAll found) (hlt : d.start < c.start) (hin : c.start < d.stop) :
    ∃ run ∈ d.markup, c.range.within run = true := by
  induction hn : sizeAll found using Nat.strongRecOn generalizing found cursor stop with
  | ind n ih =>
    cases found with
    | nil => cases hd
    | cons u rest =>
      have hu := List.mem_cons_self (a := u) (l := rest)
      have hchildren := h.children hu
      rw [sizeAll, size_eq u] at hn
      rw [preorderAll_cons, List.mem_append] at hd hc
      rcases hd with hd | hd <;> rcases hc with hc | hc
      · rw [preorder_eq, List.mem_cons] at hd hc
        rcases hc with rfl | hc
        · rcases hd with rfl | hd
          · omega
          · have := (hchildren.bounds hd).1
            omega
        rcases hd with rfl | hd
        -- the child that holds the construct lies in a run
        · obtain ⟨e, he, hce⟩ := mem_preorderAll.mp hc
          obtain ⟨run, hrun, hwithin⟩ := (h.2 d (mem_preorderAll_of_mem hu)).exists_run he
          refine ⟨run, hrun, within_iff.mpr ?_⟩
          have hinside := hchildren.preorder_bounds he (e.preorder_eq ▸ List.mem_cons.mpr hce)
          have hrange := within_iff.mp hwithin
          simp only [range] at hrange ⊢
          omega
        · exact ih _ (by omega) hchildren hd hc rfl
      · have := (h.preorder_bounds hu hd).2
        have := (h.tail.bounds hc).1
        omega
      · have := (h.preorder_bounds hu hc).2
        have := (h.tail.bounds hd).1
        have hmem : c ∈ preorderAll (u :: rest) := List.mem_append_left _ hc
        have := (h.2 c hmem).nonempty
        omega
      · exact ih _ (by omega) h.tail hd hc rfl

/-- **Constructs begin in pre-order**, each behind the start of the one before. -/
theorem Scanned.starts_increase {cursor stop : Nat} {found : List Segment}
    (h : Scanned cursor stop found) : (preorderAll found).Pairwise (·.start < ·.start) := by
  induction hn : sizeAll found using Nat.strongRecOn generalizing found cursor stop with
  | ind n ih =>
    cases found with
    | nil => exact .nil
    | cons s rest =>
      rw [sizeAll, size_eq s] at hn
      have hchildren := h.children (List.mem_cons_self ..)
      have hs := (h.2 s (mem_preorderAll_of_mem (List.mem_cons_self ..))).nonempty
      rw [preorderAll_cons, preorder_eq, List.cons_append, List.pairwise_cons,
        List.pairwise_append]
      refine ⟨fun t ht => ?_, ih _ (by omega) hchildren rfl, ih _ (by omega) h.tail rfl,
        fun t ht u hu => ?_⟩
      · rcases List.mem_append.mp ht with ht | ht
        · exact (hchildren.bounds ht).1
        · exact Nat.lt_of_lt_of_le hs (h.tail.bounds ht).1
      · have hstop := (hchildren.bounds ht).2
        have hnonempty := (hchildren.2 t ht).nonempty
        have := (h.tail.bounds hu).1
        omega

/-- What holds of the constructs of each run, nested or not, holds of all of them. -/
theorem forall_groups {p : Segment → Prop} {runs : List Range} {groups : List (List Segment)}
    (h : List.Forall₂ (fun _ group => ∀ t ∈ preorderAll group, p t) runs groups) :
    ∀ t ∈ preorderAll groups.flatten, p t := by
  induction h with
  | nil => exact fun _ ht => nomatch ht
  | cons hgroup _ ih =>
    intro t ht
    rw [List.flatten_cons, preorderAll_append, List.mem_append] at ht
    exact ht.elim (hgroup t) (ih t)

/-- **The constructs of a stretch of markup** are in order inside it, at every
level. -/
theorem segments_scanned (src : Bytes) {cursor stop : Nat} (h : cursor ≤ stop) :
    Answers (segments src cursor stop) (Scanned cursor stop) := by
  induction hn : stop - cursor using Nat.strongRecOn generalizing cursor stop with
  | ind n ih =>
    have hempty : Scanned cursor stop [] := ⟨h, by simp⟩
    rw [segments]
    split
    · split
      · exact .ok hempty
      · next mark hmark =>
        have hb := Bytes.find_bounds hmark
        have hlen : mark + 1 ≤ stop := hb.2.1
        refine .bind (readTransition_read hlen) ?_
        rintro ⟨segment?, next, hnext⟩ ⟨hread, hle⟩
        have later : Answers (segments src next stop) (Scanned next stop) :=
          ih _ (by omega) hle rfl
        dsimp only at hread hle ⊢
        split
        · exact later.mono fun found hfound => hfound.mono (by omega)
        · next s =>
          have hs := hread s rfl
          have hstop := hs.stop_le
          have hgroups : Answers (s.markup.mapM fun run =>
              if mark < run.start ∧ run.stop ≤ stop then segments src run.start run.stop
              else return []) (List.Forall₂ (fun run => Scanned run.start run.stop) s.markup) := by
            refine .mapM fun run hrun => ?_
            have hrun := hs.runs_chain.of_mem hrun
            rw [if_pos (by omega)]
            exact ih _ (by omega) hrun.2.1 rfl
          refine .bind hgroups fun groups hgroups => ?_
          refine .bind later fun rest hrest => .pure ⟨⟨?_, ?_, ?_⟩, ?_⟩
          · show cursor ≤ s.start
            rw [hs.start_eq]
            exact hb.1
          · show s.start ≤ s.stop
            rw [hs.start_eq]
            exact Nat.le_of_lt hs.runs_chain.le
          · exact hrest.1.mono hstop (Nat.le_refl _)
          · intro t ht
            rw [preorderAll_cons, preorder_eq, List.cons_append, List.mem_cons,
              List.mem_append] at ht
            rcases ht with rfl | ht | ht
            · exact hs.nested (hgroups.imp fun _ _ hg => hg.1)
            · exact forall_groups (hgroups.imp fun _ _ hg => hg.2) t ht
            · exact hrest.2 t ht
    · exact .ok hempty

/-- **What a scan finds** stands in order inside the source. -/
theorem scan_scanned {src : Bytes} {scanned : List Segment} (h : scan src = .ok scanned) :
    Scanned 0 src.size scanned :=
  segments_scanned src (Nat.zero_le _) scanned h

/-- **Each construct of a scan** is nested, at every level. -/
theorem scan_nested {src : Bytes} {scanned : List Segment} (h : scan src = .ok scanned)
    {s : Segment} (hs : s ∈ allSegments scanned) : s.Nested :=
  (scan_scanned h).2 s (allSegments_eq scanned ▸ hs)

/-- **The layout of a scan.** The outermost constructs are in order inside the
source; each construct, at every level, is laid out as `Segment.LaidOut` says; and
the code of all of them, nested or not, is disjoint. -/
theorem scan_laidOut {src : Bytes} {scanned : List Segment} (h : scan src = .ok scanned) :
    (scanned.map range).Pairwise Before
      ∧ (∀ s ∈ scanned, s.range.within ⟨0, src.size⟩ = true)
      ∧ (∀ s ∈ allSegments scanned, s.LaidOut)
      ∧ ((allSegments scanned).flatMap codeRanges).Pairwise Range.Disjoint := by
  obtain ⟨hchain, hnested⟩ := scan_scanned h
  rw [allSegments_eq]
  refine ⟨hchain.pairwise, fun s hs => ?_, fun s hs => ?_, ?_⟩
  · have hb := hchain.of_mem (List.mem_map_of_mem hs)
    exact within_iff.mpr ⟨hb.1, hb.2.2⟩
  · refine (hnested s hs).laidOut fun c hc => ?_
    exact hnested c (mem_preorderAll_trans hs (mem_preorderAll_of_mem hc))
  · refine pairwise_disjoint_of_countP fun i => ?_
    exact Nat.le_trans (countP_codeAll_le hnested i) (hchain.countP_has_le_one i)

/-- A block of code with a line of markup in it that holds an expression:
`@{@:a@b⏎c}`. -/
theorem scan_laidOut_line : ∃ scanned,
    scan #[0x40, 0x7B, 0x40, 0x3A, 0x61, 0x20, 0x40, 0x62, 0x0A, 0x63, 0x7D] = .ok scanned
      ∧ (allSegments scanned).map range = [⟨0, 11⟩, ⟨6, 8⟩]
      ∧ (∀ s ∈ allSegments scanned, s.LaidOut)
      ∧ ((allSegments scanned).flatMap codeRanges).Pairwise Range.Disjoint := by
  have hrun : (scan #[0x40, 0x7B, 0x40, 0x3A, 0x61, 0x20, 0x40, 0x62, 0x0A, 0x63, 0x7D]).map
      (fun scanned => (allSegments scanned).map range) = .ok [⟨0, 11⟩, ⟨6, 8⟩] := by
    decide +kernel
  obtain ⟨scanned, hscan, hranges⟩ := Answers.exists_of_map hrun
  have hlaid := scan_laidOut hscan
  exact ⟨scanned, hscan, hranges, hlaid.2.2.1, hlaid.2.2.2⟩

end SyntaxForest.Template
