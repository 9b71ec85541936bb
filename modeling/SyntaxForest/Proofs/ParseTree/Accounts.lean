import SyntaxForest.Proofs.Comments.Adding
import SyntaxForest.Proofs.ParseTree.WorkList
import SyntaxForest.Proofs.Weight

/-!
# The accounts of a conversion

On its way through a parse tree a conversion keeps two accounts. It counts the error nodes and the
missing children that it meets, and it adds up the content of each error node that is not inside
another one. This module says what the two come to, in words that know nothing of the way: the
nodes that are reached through named children (`ParseTree.reached`), and the bytes that these
cover.

For the count nothing is asked of the tree. For the weight it matters that spans are well formed
(`ParseTree.WellSpanned`): an error inside an error is left out because its bytes have been
weighed, which is so if it lies inside; and two errors of which none is inside the other may be
weighed one by one if they share no byte. Siblings may stand in any order, and may be empty.
-/

namespace SyntaxForest

open Template (Range)

namespace ParseTree

variable {t n : ParseTree} {i : Nat}

/-- The bytes that a node covers. -/
def range (t : ParseTree) : Range := ⟨t.head.start, t.head.stop⟩

/-- **Well-formed spans**: the bytes of a child are bytes of its parent, and no two children of a
node have a byte in common. -/
inductive WellSpanned : ParseTree → Prop
  | node (head : ParseNode) (children : List ParseTree)
      (inside : ∀ c ∈ children, ∀ i, c.range.has i = true →
        (ParseTree.node head children).range.has i = true)
      (apart : children.Pairwise fun a b => a.range.Disjoint b.range)
      (below : ∀ c ∈ children, WellSpanned c) : WellSpanned (.node head children)

/-- Spans are well formed if children keep to the bounds of their parent and to their own side of
one another. -/
theorem WellSpanned.of_bounds {head : ParseNode} {children : List ParseTree}
    (inside : ∀ c ∈ children, head.start ≤ c.head.start ∧ c.head.stop ≤ head.stop)
    (apart : children.Pairwise fun a b =>
      a.head.stop ≤ b.head.start ∨ b.head.stop ≤ a.head.start)
    (below : ∀ c ∈ children, c.WellSpanned) : WellSpanned (.node head children) := by
  refine .node head children (fun c hc i hi => ?_) (apart.imp fun hab i hi => ?_) below
  · obtain ⟨hlow, hhigh⟩ := inside c hc
    obtain ⟨hstart, hstop⟩ := Range.has_iff.mp hi
    exact Range.has_iff.mpr ⟨Nat.le_trans hlow hstart, Nat.lt_of_lt_of_le hstop hhigh⟩
  · obtain ⟨ha, hb⟩ := hi
    rw [Range.has_iff] at ha hb
    rcases hab with hab | hab
    · exact Nat.not_le.mpr (Nat.lt_of_le_of_lt hb.1 ha.2) hab
    · exact Nat.not_le.mpr (Nat.lt_of_le_of_lt ha.1 hb.2) hab

/-- **The nodes that are reached** from a root through named children, the root included. -/
def reached (t : ParseTree) : List ParseTree := t :: t.keptBelow

theorem keptAll_eq (ts : List ParseTree) :
    keptAll ts = (ts.filter (·.head.named)).flatMap reached := by
  induction ts with
  | nil => rfl
  | cons t rest ih =>
    unfold keptAll
    rw [List.filter_cons]
    split
    · rw [ih, List.flatMap_cons]
      rfl
    · exact ih

theorem reached_eq (t : ParseTree) : t.reached = t :: t.namedChildren.flatMap reached := by
  rw [reached, keptBelow_eq, keptAll_eq]
  rfl

theorem faultsAll_eq (ts : List ParseTree) :
    faultsAll ts = (ts.filter (·.head.named)).flatMap faults := by
  induction ts with
  | nil => rfl
  | cons t rest ih =>
    unfold faultsAll
    rw [List.filter_cons]
    split
    · rw [ih, List.flatMap_cons]
    · exact ih

theorem faults_eq (t : ParseTree) :
    t.faults = if t.head.error then [t.range] else t.namedChildren.flatMap faults := by
  cases t with
  | node head children =>
    unfold faults
    rw [faultsAll_eq]
    rfl

/-! ## Errors that are weighed -/

theorem WellSpanned.of_mem {head : ParseNode} {children : List ParseTree} {c : ParseTree}
    (h : (ParseTree.node head children).WellSpanned) (hc : c ∈ children) : c.WellSpanned := by
  cases h with
  | node _ _ _ _ below => exact below c hc

/-- What is reached lies inside. -/
theorem WellSpanned.has_of_reached (h : t.WellSpanned) (hn : n ∈ t.reached)
    (hi : n.range.has i = true) : t.range.has i = true := by
  induction h with
  | node head children inside _ _ ih =>
    rw [reached_eq, List.mem_cons, List.mem_flatMap] at hn
    rcases hn with rfl | ⟨c, hc, hn⟩
    · exact hi
    · have hmem := List.mem_of_mem_filter hc
      exact inside c hmem i (ih c hmem hn)

/-- **The bytes that are weighed** are those that some error covers that is reached. -/
theorem WellSpanned.exists_faults (h : t.WellSpanned) :
    (∃ r ∈ t.faults, r.has i = true)
      ↔ ∃ n ∈ t.reached, n.head.error = true ∧ n.range.has i = true := by
  have hself := h
  induction h with
  | node head children _ _ _ ih =>
    rw [faults_eq]
    cases herror : (ParseTree.node head children).head.error with
    | true =>
      -- the root is weighed, and covers what is below it
      rw [if_pos rfl]
      constructor
      · rintro ⟨r, hr, hi⟩
        rw [List.mem_singleton.mp hr] at hi
        exact ⟨_, List.mem_cons_self, herror, hi⟩
      · rintro ⟨n, hn, -, hi⟩
        exact ⟨_, List.mem_cons_self, hself.has_of_reached hn hi⟩
    | false =>
      rw [if_neg Bool.false_ne_true, reached_eq]
      constructor
      · rintro ⟨r, hr, hi⟩
        obtain ⟨c, hc, hr⟩ := List.mem_flatMap.mp hr
        have hmem := List.mem_of_mem_filter hc
        obtain ⟨n, hn, hcovers⟩ := (ih c hmem (hself.of_mem hmem)).mp ⟨r, hr, hi⟩
        exact ⟨n, List.mem_cons_of_mem _ (List.mem_flatMap.mpr ⟨c, hc, hn⟩), hcovers⟩
      · rintro ⟨n, hn, hn_error, hi⟩
        rcases List.mem_cons.mp hn with rfl | hn
        · exact absurd (herror.symm.trans hn_error) Bool.false_ne_true
        · obtain ⟨c, hc, hn⟩ := List.mem_flatMap.mp hn
          have hmem := List.mem_of_mem_filter hc
          obtain ⟨r, hr, hi⟩ := (ih c hmem (hself.of_mem hmem)).mpr ⟨n, hn, hn_error, hi⟩
          exact ⟨r, List.mem_flatMap.mpr ⟨c, hc, hr⟩, hi⟩

/-- What is weighed lies inside. -/
theorem WellSpanned.has_of_faults {r : Range} (h : t.WellSpanned) (hr : r ∈ t.faults)
    (hi : r.has i = true) : t.range.has i = true := by
  obtain ⟨n, hn, -, hi⟩ := h.exists_faults.mp ⟨r, hr, hi⟩
  exact h.has_of_reached hn hi

/-- **No byte is weighed twice.** -/
theorem WellSpanned.pairwise_faults (h : t.WellSpanned) : t.faults.Pairwise Range.Disjoint := by
  induction h with
  | node head children _ apart below ih =>
    rw [faults_eq]
    split
    · exact List.pairwise_singleton ..
    · refine List.pairwise_flatMap.mpr ⟨fun c hc => ih c (List.mem_of_mem_filter hc), ?_⟩
      refine (apart.filter _).imp_of_mem fun hc hd hcd r hr q hq i hi => ?_
      exact hcd i ⟨(below _ (List.mem_of_mem_filter hc)).has_of_faults hr hi.1,
        (below _ (List.mem_of_mem_filter hd)).has_of_faults hq hi.2⟩

end ParseTree

/-! ## The two accounts -/

namespace Conversion

variable {describe : Describe} {src : Bytes} {shift : Shift}

/-- **The count of the faults**, wherever a node stands. -/
theorem below_errorCount (inside : Bool) (t : ParseTree) :
    (below describe src shift inside t).errorCount
      = t.reached.countP (·.head.error)
        + (t.reached.map fun n => n.children.countP (·.head.missing)).sum := by
  induction t using ParseTree.childrenInduction generalizing inside with
  | h t ih =>
    have hbelow : t.namedChildren.map
          (fun c => (below describe src shift (inside || t.head.error) c).errorCount)
        = t.namedChildren.map fun c => c.reached.countP (·.head.error)
          + (c.reached.map fun n => n.children.countP (·.head.missing)).sum :=
      List.map_congr_left fun c hc => ih c (List.mem_of_mem_filter hc) _
    rw [(below_faults describe src shift inside t).1, hbelow, ParseTree.reached_eq,
      List.countP_cons, List.countP_flatMap, List.map_cons, List.sum_cons, List.map_flatMap,
      List.flatMap_def, List.sum_flatten, List.map_map, List.sum_map_add, missingChildren]
    exact (Nat.add_add_add_comm ..).trans (congrArg (· + _) (Nat.add_comm ..))

variable (src) in
/-- **The weight of the errors**: the content bytes that some error covers that is reached. -/
theorem below_weight {t : ParseTree} (h : t.WellSpanned) :
    (below describe src shift false t).errorBytes
      = src.contentOffsets.countP fun i =>
        t.reached.any fun n => n.head.error && n.range.has i := by
  rw [below_errorBytes, if_neg Bool.false_ne_true, Bytes.weigh_of_disjoint h.pairwise_faults]
  refine List.countP_congr fun i _ => ?_
  simp only [List.any_eq_true, Bool.and_eq_true]
  exact h.exists_faults

/-- **The accounts of a conversion.** The work list ends without a refusal. Its count, which is the
one of the recursion, is the number of error nodes that are reached through named children, and of
the missing children, named or not, of the nodes that are. Where spans are well formed, its weight
is the number of content bytes of the source that one of these error nodes covers, however errors
are nested, and so no more than the content of the source. -/
theorem convert_accounts (t : ParseTree) (src : Bytes) (describe : Describe) (shift : Shift)
    (rootKind : Option String) :
    ∃ o, t.convertByWorkList src describe shift rootKind = .ok o
      ∧ o.errorCount = (t.convert src describe shift rootKind).errorCount
      ∧ o.errorBytes = (t.convert src describe shift rootKind).errorBytes
      ∧ o.errorCount = t.reached.countP (·.head.error)
        + (t.reached.map fun n => n.children.countP (·.head.missing)).sum
      ∧ (t.WellSpanned →
        o.errorBytes = src.contentOffsets.countP (fun i =>
            t.reached.any fun n => n.head.error && n.range.has i)
          ∧ o.errorBytes ≤ src.contentLength) := by
  obtain ⟨o, hrun, -, -, hcount, hbytes⟩ := convertByWorkList_ok t src describe shift rootKind
  obtain ⟨hcount', hbytes'⟩ := convert_faults describe src shift t rootKind
  refine ⟨o, hrun, hcount, hbytes, ?_, fun h => ?_⟩
  · rw [hcount, hcount', below_errorCount]
  · have hweight := (hbytes.trans hbytes').trans (below_weight src h)
    refine ⟨hweight, ?_⟩
    rw [hweight, ← Bytes.length_contentOffsets]
    exact List.countP_le_length

/-- A node that stands on the first line of a source. -/
def lineNode (kind : String) (named missing error : Bool) (start stop : Nat)
    (children : List ParseTree) : ParseTree :=
  .node ⟨kind, named, missing, error, start, stop, ⟨0, start⟩, ⟨0, stop⟩, []⟩ children

/-- An error in an error. -/
def strayName : ParseTree :=
  lineNode "ERROR" true false true 6 7 [lineNode "identifier" true false false 6 7 []]

/-- An error with a bracket that is missing. -/
def brokenList : ParseTree :=
  lineNode "ERROR" true false true 2 7
    [lineNode "(" false false false 2 3 [], lineNode "identifier" true false false 4 5 [],
      strayName, lineNode ")" false true false 7 7 []]

/-- What may be made of `f ( a b`. -/
def unclosedCall : ParseTree :=
  lineNode "program" true false false 0 7
    [lineNode "identifier" true false false 0 1 [], brokenList]

theorem unclosedCall_wellSpanned : unclosedCall.WellSpanned := by
  have hleaf (kind : String) (named missing : Bool) (start stop : Nat) :
      (lineNode kind named missing false start stop []).WellSpanned :=
    .of_bounds nofun .nil nofun
  have hname : strayName.WellSpanned := .of_bounds (by decide) (by decide) (by simp [hleaf])
  have hlist : brokenList.WellSpanned :=
    .of_bounds (by decide) (by decide) (by simp [hleaf, hname])
  exact .of_bounds (by decide) (by decide) (by simp [hleaf, hlist])

/-- The three bytes of content inside the outer error are weighed once; two errors and a missing
bracket are counted. -/
theorem convert_accounts_unclosed :
    ∃ o, unclosedCall.convertByWorkList (Bytes.ofText "f ( a b") (fun _ _ => []) {} none = .ok o
      ∧ o.errorCount = 3 ∧ o.errorBytes = 3 ∧ unclosedCall.WellSpanned := by
  obtain ⟨o, hrun, -, -, hcount, hbytes⟩ :=
    convert_accounts unclosedCall (Bytes.ofText "f ( a b") (fun _ _ => []) {} none
  refine ⟨o, hrun, hcount, ?_, unclosedCall_wellSpanned⟩
  rw [(hbytes unclosedCall_wellSpanned).1]
  rfl

end Conversion

end SyntaxForest
