import Mathlib.Data.List.Flatten
import SyntaxForest.Proofs.Template.Pieces

/-!
# Two nodes among the same siblings

Two nodes with a gap between their spans are put among the same siblings, one after the other. The
texts fall into the same pieces in either order, so the same siblings are left outside both
(`outsideOf_comm`), and the second node stands before the same one of them
(`Pair.outsideOf_around`). The first need not. It stands before the first sibling that starts no
earlier, and this may be one that the second takes in. If what is left behind it then starts before
the node, the two orders differ: put first, the node stays where it is, and put second, it goes
behind (`Strays`). Nothing else sets them apart, but for a sibling of negative length that lies in
both (`Pair.insertAmong_comm_iff`).
-/

namespace SyntaxForest.Template

open SyntaxForest.Template.Span (ofTree)
open SyntaxForest.Tree (headsAll)

variable {s : Source} {a b cut : Span} {t u x q y v : Tree} {cs cs' : List Tree}

/-! ## What is left beside two nodes -/

/-- The siblings, each a text as a cut leaves it or no text. -/
def AllCut (s : Source) (cs : List Tree) : Prop := ∀ x ∈ cs, AsCut s x

/-- **A sibling after a cut**: if it is a text it is not empty, and before, inside or after the
cut. -/
theorem clear_of_mem_cutAt (hcut : cut.start ≤ cut.stop) (hx : AsCut s x) (hq : q ∈ cutAt s cut x)
    (hleaf : isTextLeaf q = true) : (ofTree q).start < (ofTree q).stop
      ∧ ((ofTree q).stop ≤ cut.start ∨ cut.contains (ofTree q) = true
        ∨ cut.stop ≤ (ofTree q).start) := by
  rcases mem_cutAt hcut hq with ⟨rfl, hover⟩ | ⟨-, hpiece⟩
  · refine ⟨hx.start_lt_stop hleaf, ?_⟩
    have := Span.overlaps_eq_false_iff.mp (hover hleaf)
    exact this.symm.imp_right .inr
  · exact ⟨hpiece.nonempty, hpiece.clear⟩

/-- **A second cut moves nothing** into the span of the first, or out of it. -/
theorem contains_of_mem_cutAt_cutAt (ha : a.start < a.stop) (hb : b.start < b.stop)
    (hx : AsCut s x) (hq : q ∈ cutAt s a x) (hy : y ∈ cutAt s b q) :
    a.contains (ofTree y) = a.contains (ofTree q) := by
  rcases mem_cutAt (Int.le_of_lt hb) hy with ⟨rfl, -⟩ | ⟨hleaf, hpiece⟩
  · rfl
  · obtain ⟨-, hclear⟩ := clear_of_mem_cutAt (Int.le_of_lt ha) hx hq hleaf
    obtain ⟨-, hlow, hne, hhigh, -⟩ := hpiece
    rw [Span.contains_iff] at hclear
    rw [Bool.eq_iff_iff, Span.contains_iff, Span.contains_iff]
    omega

/-- **A text that an insertion leaves outside** lies wholly in front of the node or behind it. -/
theorem clear_of_mem_outsideOf (hne : (ofTree t).start < (ofTree t).stop) (hcs : AllCut s cs)
    (hq : q ∈ outsideOf s t cs) (hleaf : isTextLeaf q = true) :
    (ofTree q).start < (ofTree q).stop
      ∧ ((ofTree q).stop ≤ (ofTree t).start ∨ (ofTree t).stop ≤ (ofTree q).start) := by
  obtain ⟨⟨x, hx, hqx⟩, hout⟩ := mem_outsideOf.mp hq
  have hclear := clear_of_mem_cutAt (Int.le_of_lt hne) (hcs x hx) hqx hleaf
  rw [hout] at hclear
  exact hclear.imp_right fun hside => hside.imp_right fun h => h.resolve_left Bool.false_ne_true

theorem filter_flatMap {α β : Type} {f : α → List β} {p : α → Bool} {r : β → Bool} {l : List α}
    (h : ∀ q ∈ l, ∀ y ∈ f q, r y = p q) : (l.filter p).flatMap f = (l.flatMap f).filter r := by
  induction l with
  | nil => rfl
  | cons q l ih =>
    obtain ⟨hq, hl⟩ := List.forall_mem_cons.mp h
    rw [List.flatMap_cons, List.filter_append, ← ih hl, List.filter_cons]
    cases hp : p q with
    | true =>
      rw [if_pos rfl, List.flatMap_cons, List.filter_eq_self.mpr fun y hy => (hq y hy).trans hp]
    | false =>
      have hnone : (f q).filter r = [] :=
        List.filter_eq_nil_iff.mpr fun y hy => by simp [hq y hy, hp]
      rw [if_neg Bool.false_ne_true, hnone, List.nil_append]

/-- **Cutting siblings at two detached spans** may be done in either order. -/
theorem cutSiblings_comm (hab : Detached (ofTree t) (ofTree u)) (hcs : AllCut s cs) :
    cutSiblings s u (cutSiblings s t cs) = cutSiblings s t (cutSiblings s u cs) := by
  simp only [cutSiblings, List.flatMap_assoc]
  exact List.flatMap_congr fun x hx => cutAt_comm hab (hcs x hx)

theorem cutSiblings_filter (ht : (ofTree t).start < (ofTree t).stop)
    (hu : (ofTree u).start < (ofTree u).stop) (hcs : AllCut s cs) (f : Bool → Bool) :
    cutSiblings s u ((cutSiblings s t cs).filter fun q => f ((ofTree t).contains (ofTree q)))
      = (cutSiblings s u (cutSiblings s t cs)).filter
        fun q => f ((ofTree t).contains (ofTree q)) := by
  refine filter_flatMap fun q hq y hy => ?_
  obtain ⟨x, hx, hqx⟩ := mem_cutSiblings.mp hq
  rw [contains_of_mem_cutAt_cutAt ht hu (hcs x hx) hqx hy]

/-- **The same siblings are left outside two nodes**, whichever comes first. -/
theorem outsideOf_comm (hab : Detached (ofTree t) (ofTree u)) (hcs : AllCut s cs) :
    outsideOf s u (outsideOf s t cs) = outsideOf s t (outsideOf s u cs) := by
  unfold outsideOf
  rw [cutSiblings_filter hab.1 hab.2.1 hcs (!·), cutSiblings_filter hab.2.1 hab.1 hcs (!·),
    cutSiblings_comm hab hcs, List.filter_comm]

/-- **What a node takes in** after another is what it takes in alone, without what lies in both. -/
theorem insideOf_outsideOf (hab : Detached (ofTree t) (ofTree u)) (hcs : AllCut s cs) :
    insideOf s t (outsideOf s u cs)
      = (insideOf s t cs).filter fun q => !(ofTree u).contains (ofTree q) := by
  have hkept : cutSiblings s u (insideOf s t cs) = insideOf s t cs := by
    have hone : ∀ q ∈ insideOf s t cs, cutAt s (ofTree u) q = [q] := fun q hq => by
      cases hleaf : isTextLeaf q with
      | false => exact cutAt_of_not_isTextLeaf hleaf
      | true =>
        obtain ⟨⟨x, hx, hqx⟩, hin⟩ := mem_insideOf.mp hq
        have hne := (clear_of_mem_cutAt (Int.le_of_lt hab.1) (hcs x hx) hqx hleaf).1
        obtain ⟨-, -, hgap⟩ := hab
        rw [Span.contains_iff] at hin
        exact cutAt_of_not_overlaps (Span.overlaps_eq_false_iff.mpr (by omega))
    exact (List.flatMap_congr hone).trans (List.flatMap_singleton' _)
  unfold insideOf outsideOf at *
  rw [cutSiblings_filter hab.2.1 hab.1 hcs (!·), ← cutSiblings_comm hab hcs, List.filter_comm,
    ← cutSiblings_filter hab.1 hab.2.1 hcs fun inside => inside]
  exact congrArg _ hkept

/-! ## Where they stand among the same siblings -/

/-- Whether a node starts before an offset. -/
def startsBelow (low : Int) (v : Tree) : Bool := decide ((ofTree v).start < low)

/-- The siblings before the place of a node. -/
def ahead (s : Source) (t : Tree) (cs : List Tree) : List Tree :=
  (outsideOf s t cs).takeWhile (startsBelow (ofTree t).start)

/-- The siblings behind the place of a node. -/
def behind (s : Source) (t : Tree) (cs : List Tree) : List Tree :=
  (outsideOf s t cs).dropWhile (startsBelow (ofTree t).start)

/-- **What is left behind the place of a node** by a second one. -/
def beyond (s : Source) (t u : Tree) (cs : List Tree) : List Tree := outsideOf s u (behind s t cs)

/-- **A sibling strays**: nothing that the second node leaves stands between it and the place of
the first, and it starts before the first. -/
def Strays (s : Source) (t u : Tree) (cs : List Tree) : Prop :=
  ∃ r ∈ (beyond s t u cs).head?, (ofTree r).start < (ofTree t).start

/-- **Two nodes agree** on some siblings if none strays and none lies in both, as only one with a
negative length can. -/
def Agree (s : Source) (t u : Tree) (cs : List Tree) : Prop :=
  ¬ Strays s t u cs ∧ ∀ x ∈ cs,
    ¬ ((ofTree t).contains (ofTree x) = true ∧ (ofTree u).contains (ofTree x) = true)

/-- An insertion leaves a part of the siblings ahead of the node and the others behind it. -/
theorem insertAmong_eq_ahead (s : Source) (t : Tree) (cs : List Tree) :
    insertAmong s t cs = ahead s t cs ++ wholeOf s t cs :: behind s t cs := rfl

theorem ahead_append_behind (s : Source) (t : Tree) (cs : List Tree) :
    ahead s t cs ++ behind s t cs = outsideOf s t cs := List.takeWhile_append_dropWhile

/-- What is left ahead of a node begins in front of it. -/
theorem start_lt_of_mem_ahead (hv : v ∈ ahead s t cs) : (ofTree v).start < (ofTree t).start :=
  start_lt_of_takeWhile hv

/-- What a node takes over leaves its span as it is. -/
theorem wholeOf_span (s : Source) (t : Tree) (cs : List Tree) :
    ofTree (wholeOf s t cs) = ofTree t := ofTree_of_head (wholeOf_head s t cs)

theorem wholeOf_not_isTextLeaf (hleaf : isTextLeaf t = false) :
    isTextLeaf (wholeOf s t cs) = false :=
  wholeOf_induction (motive := fun w => isTextLeaf w = false) hleaf fun w _ u _ =>
    (place_atHome u w).not_isTextLeaf insertByStart_ne_nil

theorem outsideOf_append (s : Source) (t : Tree) (cs cs' : List Tree) :
    outsideOf s t (cs ++ cs') = outsideOf s t cs ++ outsideOf s t cs' := by
  rw [outsideOf, cutSiblings, List.flatMap_append, List.filter_append]
  rfl

theorem insideOf_append (s : Source) (t : Tree) (cs cs' : List Tree) :
    insideOf s t (cs ++ cs') = insideOf s t cs ++ insideOf s t cs' := by
  rw [insideOf, cutSiblings, List.flatMap_append, List.filter_append]
  rfl

/-- **A bystander**: a node outside another, which is no text that the other overlaps. -/
structure Bystander (s : Source) (t v : Tree) : Prop where
  whole : cutAt s (ofTree t) v = [v]
  outside : (ofTree t).contains (ofTree v) = false

theorem Bystander.outsideOf_cons (h : Bystander s t v) (cs : List Tree) :
    outsideOf s t (v :: cs) = v :: outsideOf s t cs := by
  rw [outsideOf, cutSiblings, List.flatMap_cons, h.whole, List.singleton_append,
    List.filter_cons_of_pos (by rw [h.outside]; rfl)]
  rfl

theorem Bystander.insideOf_cons (h : Bystander s t v) (cs : List Tree) :
    insideOf s t (v :: cs) = insideOf s t cs := by
  rw [insideOf, cutSiblings, List.flatMap_cons, h.whole, List.singleton_append,
    List.filter_cons_of_neg (by rw [h.outside]; exact Bool.false_ne_true)]
  rfl

/-- Bystanders are left as they are. -/
theorem outsideOf_of_bystanders (h : ∀ v ∈ cs, Bystander s t v) : outsideOf s t cs = cs := by
  induction cs with
  | nil => rfl
  | cons v cs ih =>
    obtain ⟨hv, hcs⟩ := List.forall_mem_cons.mp h
    rw [hv.outsideOf_cons, ih hcs]

/-- **A node apart from another is its bystander**, with all that it took in. -/
theorem wholeOf_bystander (hleaf : isTextLeaf u = false)
    (hout : (ofTree t).contains (ofTree u) = false) : Bystander s t (wholeOf s u cs) :=
  ⟨cutAt_of_not_isTextLeaf (wholeOf_not_isTextLeaf hleaf), by rwa [wholeOf_span]⟩

/-- **What a second insertion leaves outside** of the siblings of a first one: the first node,
between what is ahead of it and what is behind it. -/
theorem outsideOf_insertAmong (hleaf : isTextLeaf u = false)
    (hout : (ofTree t).contains (ofTree u) = false) : outsideOf s t (insertAmong s u cs)
      = outsideOf s t (ahead s u cs) ++ wholeOf s u cs :: outsideOf s t (behind s u cs) := by
  rw [insertAmong_eq_ahead, outsideOf_append, (wholeOf_bystander hleaf hout).outsideOf_cons]

/-- A second insertion takes over what it would have taken over without the first. -/
theorem insideOf_insertAmong (hleaf : isTextLeaf u = false)
    (hout : (ofTree t).contains (ofTree u) = false) :
    insideOf s t (insertAmong s u cs) = insideOf s t (outsideOf s u cs) := by
  rw [insertAmong_eq_ahead, insideOf_append, (wholeOf_bystander hleaf hout).insideOf_cons,
    ← insideOf_append, ahead_append_behind]

/-- **Two nodes to insert**, the second behind the first with a gap between them. -/
structure Pair (t u : Tree) : Prop where
  left : isTextLeaf t = false
  right : isTextLeaf u = false
  left_nonempty : (ofTree t).start < (ofTree t).stop
  right_nonempty : (ofTree u).start < (ofTree u).stop
  gap : (ofTree t).stop < (ofTree u).start

theorem Pair.start_lt (h : Pair t u) : (ofTree t).start < (ofTree u).start :=
  Int.lt_trans h.left_nonempty h.gap

theorem Pair.apart (h : Pair t u) : Detached (ofTree t) (ofTree u) :=
  ⟨h.left_nonempty, h.right_nonempty, .inl h.gap⟩

/-- What stands before the place of the first node is out of reach for the second. -/
theorem Pair.bystander_of_mem_ahead (h : Pair t u) (hcs : AllCut s cs) (hv : v ∈ ahead s t cs) :
    Bystander s u v := by
  have hstart := start_lt_of_mem_ahead hv
  obtain ⟨-, -, hne, hne', hgap⟩ := h
  refine ⟨?_, ?_⟩
  · cases hleaf : isTextLeaf v with
    | false => exact cutAt_of_not_isTextLeaf hleaf
    | true =>
      have hclear := clear_of_mem_outsideOf hne hcs ((List.takeWhile_sublist _).subset hv) hleaf
      exact cutAt_of_not_overlaps (Span.overlaps_eq_false_iff.mpr (by omega))
  · rw [Bool.eq_false_iff, Ne, Span.contains_iff]
    omega

/-- The first sibling behind the place of the second node is out of reach for the first. -/
theorem Pair.bystander_of_behind (h : Pair t u) {rest : List Tree}
    (hlist : behind s u cs = v :: rest) :
    Bystander s t v ∧ ¬ startsBelow (ofTree u).start v = true := by
  have hfirst : startsBelow (ofTree u).start v = false := by
    have hnot := List.head?_dropWhile_not (startsBelow (ofTree u).start) (outsideOf s u cs)
    change (outsideOf s u cs).dropWhile _ = _ at hlist
    rwa [hlist] at hnot
  have hstart : (ofTree u).start ≤ (ofTree v).start := Int.not_lt.mp (of_decide_eq_false hfirst)
  have hv : v ∈ outsideOf s u cs := by
    refine (List.dropWhile_sublist (startsBelow (ofTree u).start)).subset ?_
    change v ∈ behind s u cs
    rw [hlist]
    exact List.mem_cons_self
  obtain ⟨⟨x, hx, hvx⟩, hout⟩ := mem_outsideOf.mp hv
  obtain ⟨-, -, hne, hne', hgap⟩ := h
  refine ⟨⟨?_, ?_⟩, Bool.eq_false_iff.mp hfirst⟩
  · cases hleaf : isTextLeaf v with
    | false => exact cutAt_of_not_isTextLeaf hleaf
    | true => exact cutAt_of_not_overlaps (Span.overlaps_eq_false_iff.mpr (by omega))
  · rw [Bool.eq_false_iff, Ne, Span.contains_iff] at hout ⊢
    omega

/-- **What is left outside two nodes**, about the place of the first. -/
theorem Pair.outsideOf_eq (h : Pair t u) (hcs : AllCut s cs) :
    outsideOf s u (outsideOf s t cs) = ahead s t cs ++ beyond s t u cs := by
  rw [← ahead_append_behind s t cs, outsideOf_append,
    outsideOf_of_bystanders fun v hv => h.bystander_of_mem_ahead hcs hv]
  rfl

/-- A first cut before the place of the second node leaves this place where it is. -/
theorem Pair.outsideOf_around (h : Pair t u) (hcs : AllCut s cs) :
    outsideOf s t (ahead s u cs)
        = (outsideOf s t (outsideOf s u cs)).takeWhile (startsBelow (ofTree u).start)
      ∧ outsideOf s t (behind s u cs)
        = (outsideOf s t (outsideOf s u cs)).dropWhile (startsBelow (ofTree u).start) := by
  have hahead : ∀ v ∈ outsideOf s t (ahead s u cs), startsBelow (ofTree u).start v = true := by
    intro v hv
    obtain ⟨⟨x, hx, hvx⟩, -⟩ := mem_outsideOf.mp hv
    have hstart := start_lt_of_mem_ahead hx
    refine decide_eq_true ?_
    rcases mem_cutAt (Int.le_of_lt h.left_nonempty) hvx with ⟨rfl, -⟩ | ⟨hleaf, hpiece⟩
    · exact hstart
    · have hne := h.right_nonempty
      have hclear := clear_of_mem_outsideOf hne hcs ((List.takeWhile_sublist _).subset hx) hleaf
      obtain ⟨-, -, hnonempty, hhigh, -⟩ := hpiece
      omega
  have hsplit : outsideOf s t (outsideOf s u cs)
      = outsideOf s t (ahead s u cs) ++ outsideOf s t (behind s u cs) := by
    rw [← outsideOf_append, ahead_append_behind]
  rw [hsplit, List.takeWhile_append_of_pos hahead, List.dropWhile_append_of_pos hahead]
  cases hlist : behind s u cs with
  | nil => exact ⟨(List.append_nil _).symm, rfl⟩
  | cons y ys =>
    have hy := h.bystander_of_behind hlist
    rw [hy.1.outsideOf_cons, List.takeWhile_cons_of_neg hy.2, List.dropWhile_cons_of_neg hy.2,
      List.append_nil]
    exact ⟨rfl, rfl⟩

theorem takeWhile_append_cons {p : Tree → Bool} (hv : ¬ p v = true) (cs rest : List Tree) :
    (cs ++ v :: rest).takeWhile p = cs.takeWhile p := by
  induction cs with
  | nil => exact List.takeWhile_cons_of_neg hv
  | cons c cs ih => rw [List.cons_append, List.takeWhile_cons, List.takeWhile_cons, ih]

theorem dropWhile_append_cons {p : Tree → Bool} (hv : ¬ p v = true) (cs rest : List Tree) :
    (cs ++ v :: rest).dropWhile p = cs.dropWhile p ++ v :: rest := by
  induction cs with
  | nil => exact List.dropWhile_cons_of_neg hv
  | cons c cs ih =>
    rw [List.cons_append, List.dropWhile_cons, List.dropWhile_cons, ih]
    split <;> rfl

/-- The siblings left beyond the first node that the second stands behind. -/
def between (s : Source) (t u : Tree) (cs : List Tree) : List Tree :=
  (beyond s t u cs).takeWhile (startsBelow (ofTree u).start)

/-- The siblings left that the second node stands before. -/
def past (s : Source) (t u : Tree) (cs : List Tree) : List Tree :=
  (beyond s t u cs).dropWhile (startsBelow (ofTree u).start)

/-- **The first node first**: the second stands behind it. -/
theorem Pair.insertAmong_left_first (h : Pair t u) (hcs : AllCut s cs) :
    insertAmong s u (insertAmong s t cs)
      = ahead s t cs ++ wholeOf s t cs :: (between s t u cs
        ++ wholeOf s u (insertAmong s t cs) :: past s t u cs) := by
  have hout : outsideOf s u (insertAmong s t cs)
      = ahead s t cs ++ wholeOf s t cs :: beyond s t u cs := by
    rw [outsideOf_insertAmong h.left h.apart.symm.not_contains,
      outsideOf_of_bystanders fun v hv => h.bystander_of_mem_ahead hcs hv]
    rfl
  have hstart := h.start_lt
  have hahead : ∀ v ∈ ahead s t cs, startsBelow (ofTree u).start v = true := fun v hv =>
    decide_eq_true (Int.lt_trans (start_lt_of_mem_ahead hv) hstart)
  have hwhole : startsBelow (ofTree u).start (wholeOf s t cs) = true := by
    rw [startsBelow, wholeOf_span]
    exact decide_eq_true hstart
  rw [insertAmong_eq_ahead s u, ahead, behind, hout, List.takeWhile_append_of_pos hahead,
    List.dropWhile_append_of_pos hahead, List.takeWhile_cons_of_pos hwhole,
    List.dropWhile_cons_of_pos hwhole, List.append_assoc]
  rfl

/-- **The second node first**: the first may go behind some of what it stands before
otherwise. -/
theorem Pair.insertAmong_right_first (h : Pair t u) (hcs : AllCut s cs) :
    insertAmong s t (insertAmong s u cs)
      = ahead s t cs ++ ((between s t u cs).takeWhile (startsBelow (ofTree t).start)
        ++ wholeOf s t (insertAmong s u cs)
          :: ((between s t u cs).dropWhile (startsBelow (ofTree t).start)
            ++ wholeOf s u cs :: past s t u cs)) := by
  have hahead : ∀ v ∈ ahead s t cs, startsBelow (ofTree t).start v = true := fun v hv =>
    decide_eq_true (start_lt_of_mem_ahead hv)
  have hstart := h.start_lt
  have hahead' : ∀ v ∈ ahead s t cs, startsBelow (ofTree u).start v = true := fun v hv =>
    decide_eq_true (Int.lt_trans (start_lt_of_mem_ahead hv) hstart)
  have hout : outsideOf s t (insertAmong s u cs)
      = ahead s t cs ++ (between s t u cs ++ wholeOf s u cs :: past s t u cs) := by
    obtain ⟨hfront, hback⟩ := h.outsideOf_around hcs
    rw [outsideOf_insertAmong h.right h.apart.not_contains, hfront, hback,
      ← outsideOf_comm h.apart hcs, h.outsideOf_eq hcs, List.takeWhile_append_of_pos hahead',
      List.dropWhile_append_of_pos hahead', List.append_assoc]
    rfl
  have hwhole : ¬ startsBelow (ofTree t).start (wholeOf s u cs) = true := by
    rw [startsBelow, wholeOf_span, decide_eq_true_iff]
    exact Int.not_lt.mpr (Int.le_of_lt hstart)
  rw [insertAmong_eq_ahead s t (insertAmong s u cs), ahead, behind, hout,
    List.takeWhile_append_of_pos hahead, List.dropWhile_append_of_pos hahead,
    takeWhile_append_cons hwhole, dropWhile_append_cons hwhole, List.append_assoc]

/-! ## When the two orders agree -/

theorem Pair.not_strays_iff (h : Pair t u) : ¬ Strays s t u cs
    ↔ (between s t u cs).takeWhile (startsBelow (ofTree t).start) = [] := by
  have hstart := h.start_lt
  unfold Strays between
  cases beyond s t u cs with
  | nil => simp
  | cons r rest =>
    by_cases hr : (ofTree r).start < (ofTree t).start
    · have hr' := Int.lt_trans hr hstart
      simp [startsBelow, hr, hr']
    · by_cases hr' : (ofTree r).start < (ofTree u).start <;> simp [startsBelow, hr, hr']

/-- No span lies inside two detached ones, unless it is empty. -/
theorem Detached.not_contains_both (hab : Detached a b) {span : Span} (hne : span.start < span.stop)
    (hin : a.contains span = true) : ¬ b.contains span = true := by
  obtain ⟨-, -, hgap⟩ := hab
  rw [Span.contains_iff] at *
  omega

/-- **Nothing lies in both nodes** exactly if the one takes in the same after the other. -/
theorem insideOf_insertAmong_eq_iff (hab : Detached (ofTree t) (ofTree u))
    (hleaf : isTextLeaf u = false) (hcs : AllCut s cs) :
    insideOf s t (insertAmong s u cs) = insideOf s t cs ↔ ∀ x ∈ cs,
      ¬ ((ofTree t).contains (ofTree x) = true ∧ (ofTree u).contains (ofTree x) = true) := by
  rw [insideOf_insertAmong hleaf hab.not_contains, insideOf_outsideOf hab hcs, List.filter_eq_self]
  simp only [Bool.not_eq_true', ← Bool.not_eq_true]
  constructor
  · rintro h x hx ⟨hint, hinu⟩
    cases htext : isTextLeaf x with
    | true => exact hab.not_contains_both ((hcs x hx).start_lt_stop htext) hint hinu
    | false =>
      refine h x (mem_insideOf.mpr ⟨⟨x, hx, ?_⟩, hint⟩) hinu
      rw [cutAt_of_not_isTextLeaf htext]
      exact List.mem_singleton_self x
  · intro h q hq
    obtain ⟨⟨x, hx, hqx⟩, hint⟩ := mem_insideOf.mp hq
    rcases mem_cutAt (Int.le_of_lt hab.1) hqx with ⟨rfl, -⟩ | ⟨-, hpiece⟩
    · exact fun hinu => h q hx ⟨hint, hinu⟩
    · exact hab.not_contains_both hpiece.nonempty hint

theorem eq_of_sublist_of_headsAll_length (hsub : cs'.Sublist cs) :
    (headsAll cs).length ≤ (headsAll cs').length → cs' = cs := by
  induction hsub with
  | slnil => exact fun _ => rfl
  | @cons cs' cs c hsub ih =>
    intro hle
    have hlen : (headsAll cs').length ≤ (headsAll cs).length := by
      rw [headsAll, headsAll, List.length_map, List.length_map, Tree.preorderAll_eq_flatMap,
        Tree.preorderAll_eq_flatMap]
      exact (hsub.flatMap _).length_le
    rw [Tree.headsAll_cons, Tree.heads_eq, List.length_append, List.length_cons] at hle
    omega
  | @cons_cons cs' cs c hsub ih =>
    intro hle
    rw [Tree.headsAll_cons, Tree.headsAll_cons, List.length_append, List.length_append] at hle
    rw [ih (by omega)]

/-- **What a node has taken in shows on it.** -/
theorem insideOf_eq_of_wholeOf_eq (hsub : (insideOf s t cs').Sublist (insideOf s t cs))
    (h : wholeOf s t cs = wholeOf s t cs') : insideOf s t cs' = insideOf s t cs := by
  have hcs := (headsAll_wholeOf_children s t cs).length_eq
  have hcs' := (headsAll_wholeOf_children s t cs').length_eq
  rw [h, hcs', Tree.headsAll_append, Tree.headsAll_append, List.length_append,
    List.length_append] at hcs
  exact eq_of_sublist_of_headsAll_length hsub (by omega)

/-- **Two insertions among the same siblings** commute exactly if the nodes agree. -/
theorem Pair.insertAmong_comm_iff (h : Pair t u) (hcs : AllCut s cs) :
    insertAmong s u (insertAmong s t cs) = insertAmong s t (insertAmong s u cs)
      ↔ Agree s t u cs := by
  have hleft := insideOf_insertAmong_eq_iff h.apart h.right hcs
  have hright := insideOf_insertAmong_eq_iff h.apart.symm h.left hcs
  rw [h.insertAmong_left_first hcs, h.insertAmong_right_first hcs, Agree, h.not_strays_iff,
    ← hleft, List.append_cancel_left_eq]
  constructor
  · intro heq
    cases hlist : (between s t u cs).takeWhile (startsBelow (ofTree t).start) with
    | nil =>
      rw [hlist, List.nil_append, List.cons.injEq] at heq
      refine ⟨rfl, insideOf_eq_of_wholeOf_eq ?_ heq.1⟩
      rw [insideOf_insertAmong h.right h.apart.not_contains, insideOf_outsideOf h.apart hcs]
      exact List.filter_sublist
    | cons r rest =>
      -- a sibling that strays stands where the node stands otherwise
      have hmem : r ∈ (between s t u cs).takeWhile (startsBelow (ofTree t).start) :=
        hlist ▸ List.mem_cons_self
      have hr : (ofTree r).start < (ofTree t).start := start_lt_of_takeWhile hmem
      rw [hlist, List.cons_append, List.cons.injEq] at heq
      rw [← heq.1, wholeOf_span] at hr
      exact absurd hr (Int.lt_irrefl _)
  · rintro ⟨hnone, hinside⟩
    have hall := hleft.mp hinside
    have hinside' := hright.mpr fun x hx hboth => hall x hx hboth.symm
    have hbetween := List.takeWhile_append_dropWhile (p := startsBelow (ofTree t).start)
      (l := between s t u cs)
    rw [hnone, List.nil_append] at hbetween
    rw [hnone, hbetween, wholeOf, wholeOf, wholeOf, wholeOf, hinside, hinside']
    rfl

/-- **Ordered siblings agree** if every text among them ends before the next one begins. -/
theorem Pair.agree_of_clears (h : Pair t u) (hord : cs.Pairwise StartsBefore)
    (hclear : cs.IsChain Clears) (hlength : ∀ x ∈ cs, (ofTree x).start ≤ (ofTree x).stop) :
    Agree s t u cs := by
  have hcut := Int.le_of_lt h.left_nonempty
  have hout : (outsideOf s t cs).Pairwise StartsBefore := by
    refine List.Pairwise.filter _ (List.pairwise_flatMap.mpr ⟨fun x _ => ?_, ?_⟩)
    · refine (cutAt_pairwise s x hcut).imp fun hqp => ?_
      unfold StartsBefore
      omega
    · exact (hord.and (clears_pairwise hord hclear)).imp fun hab q hq p hp =>
        startsBefore_of_clears hcut hab.1 hab.2 hq hp
  refine ⟨?_, fun x hx hboth => ?_⟩
  · rintro ⟨r, hr, hlt⟩
    obtain ⟨⟨p, hp, hrp⟩, -⟩ := mem_outsideOf.mp (List.mem_of_mem_head? hr)
    have hstart := le_start_of_dropWhile hout hp
    have hpiece := contains_of_mem_cutAt (Int.le_of_lt h.right_nonempty) hrp
    rw [Span.contains_iff] at hpiece
    omega
  · have := hlength x hx
    have := h.gap
    rw [Span.contains_iff, Span.contains_iff] at hboth
    omega

end SyntaxForest.Template
