import Mathlib.Algebra.GroupWithZero.Nat
import SyntaxForest.ParseTree.WorkList
import SyntaxForest.Proofs.Correspondence
import SyntaxForest.Proofs.Forest.Walk
import SyntaxForest.Proofs.Template.Kept

/-!
# The work list builds the recursion's tree

A node of the forest that waits will carry the tree that the recursion makes of its parse node
(`finished`). So at each moment of a run the root *promises* a tree: read down from the root, and
put what is to come in the place of a node that waits. Filling the node on top of the stack keeps
every promise (`Sound.step`), and when nothing waits any more the promise is kept: the tree that is
read out of the forest is the recursion's (`convertByWorkList_ok`).
-/

namespace SyntaxForest.Conversion

variable {describe : Describe} {src : Bytes} {shift : Shift} {rootKind : String}
variable {f g : Forest} {owner n : NodeId} {w : Waiting} {waiting : List Waiting} {root : Tree}

/-! ## Filling one node -/

/-- **What filling a node does**: the node gets its properties and its children, these are new
nodes, and the other nodes stay as they are. -/
structure Filled (describe : Describe) (src : Bytes) (shift : Shift) (owner : NodeId)
    (change : Properties → Properties) (named : List ParseTree) (f g : Forest) : Prop where
  size : g.cells.size = f.cells.size + named.length
  self : g.cells[owner]? = f.cells[owner]?.map fun c =>
    { c with
      properties := change c.properties
      children := c.children ++ List.range' f.cells.size named.length }
  old : ∀ n < f.cells.size, n ≠ owner → g.cells[n]? = f.cells[n]?
  new : ∀ i, g.cells[f.cells.size + i]? = named[i]?.map fun t =>
    ⟨categoryOf t.kind, nodeProperties describe src shift t, [], some owner⟩

variable (describe src shift) in
/-- Making one node and appending it. -/
theorem add_make (t : ParseTree) (howner : owner < f.cells.size) :
    ∃ g, (make describe src shift f (categoryOf t.kind) t).add owner f.cells.size = .ok g
      ∧ Filled describe src shift owner id [t] f g := by
  have hparent : (make describe src shift f (categoryOf t.kind) t).parent? f.cells.size = none := by
    simp [make, Forest.parent?]
  refine ⟨_, by rw [Forest.add, Forest.adopt_of_none hparent]; rfl, ?_, ?_, fun n hn hne => ?_,
    fun i => ?_⟩
  · simp [make]
  · simp only [Forest.modify, make, Array.getElem?_modify, Array.getElem?_push]
    grind
  · simp only [Forest.modify, make, Array.getElem?_modify, Array.getElem?_push]
    grind
  · simp only [Forest.modify, make, Array.getElem?_modify, Array.getElem?_push]
    grind

theorem Filled.cons {h : Forest} {t : ParseTree} {named : List ParseTree}
    (howner : owner < f.cells.size) (hone : Filled describe src shift owner id [t] f h)
    (hrest : Filled describe src shift owner id named h g) :
    Filled describe src shift owner id (t :: named) f g := by
  have hsize : h.cells.size = f.cells.size + 1 := hone.size
  refine ⟨?_, ?_, fun n hn hne => ?_, fun i => ?_⟩
  · rw [hrest.size, hsize, List.length_cons]
    omega
  · rw [hrest.self, hone.self, Option.map_map, hsize]
    simp [List.range'_succ, Function.comp_def]
  · rw [hrest.old n (by omega) hne, hone.old n hn hne]
  · cases i with
    | zero =>
      have hfirst := hone.new 0
      rw [Nat.add_zero] at hfirst ⊢
      rw [hrest.old f.cells.size (by omega) (Nat.ne_of_gt howner), hfirst]
      rfl
    | succ i =>
      rw [Nat.add_comm i 1, ← Nat.add_assoc, ← hsize, hrest.new i, Nat.add_comm 1 i,
        List.getElem?_cons_succ]

variable (describe src shift) in
theorem addChildren_ok (named : List ParseTree) (howner : owner < f.cells.size) :
    ∃ g, addChildren describe src shift owner f named = .ok g
      ∧ Filled describe src shift owner id named f g := by
  induction named generalizing f with
  | nil => exact ⟨f, rfl, rfl, by simp, fun _ _ _ => rfl, by simp⟩
  | cons t rest ih =>
    obtain ⟨h, hadd, hone⟩ := add_make describe src shift t howner
    obtain ⟨g, hok, hrest⟩ := ih (f := h) (hone.size ▸ Nat.lt_add_right _ howner)
    refine ⟨g, ?_, hone.cons howner hrest⟩
    rw [addChildren, hadd]
    exact hok

/-- The properties of a node that is filled: a leaf gets its text, unless it is the root. -/
def finishedProperties (src : Bytes) (w : Waiting) (props : Properties) : Properties :=
  if w.tree.namedChildren.isEmpty && w.id != 0 then props.set "text" (.text (w.tree.text src))
  else props

variable (describe src shift) in
theorem fill_ok (hw : w.id < f.cells.size) :
    ∃ g, fill describe src shift f w = .ok g
      ∧ Filled describe src shift w.id (finishedProperties src w) w.tree.namedChildren f g := by
  unfold fill finishedProperties
  cases hnamed : w.tree.namedChildren with
  | nil =>
    by_cases hid : w.id = 0
    · exact ⟨f, by simp [hid], by simp, by simp [hid], fun _ _ _ => rfl, by simp⟩
    · refine ⟨_, by simp only [List.isEmpty_nil, if_true, if_neg hid]; rfl, by simp, ?_,
        fun n hn hne => ?_, fun i => ?_⟩
      · simp [Forest.modify, Array.getElem?_modify, hid]
      · simp [Forest.modify, Array.getElem?_modify, hne.symm]
      · simp [Forest.modify]
  | cons t rest =>
    obtain ⟨g, hok, hfilled⟩ :=
      addChildren_ok describe src shift (t :: rest) hw
    exact ⟨g, by simpa using hok, hfilled⟩

/-! ## Children and owners -/

/-- Each child is made after the node that owns it, and names it as its owner. -/
def Linked (f : Forest) : Prop := ∀ n, ∀ c ∈ f.children n, n < c ∧ f.parent? c = some n

theorem lt_size_of_parent? (h : f.parent? n = some owner) : n < f.cells.size := by
  by_contra hn
  rw [Forest.parent?, Array.getElem?_eq_none (Nat.le_of_not_lt hn)] at h
  cases h

theorem Filled.parent?_of_lt {change : Properties → Properties} {named : List ParseTree}
    (hg : Filled describe src shift owner change named f g) (hn : n < f.cells.size) :
    g.parent? n = f.parent? n := by
  unfold Forest.parent?
  by_cases hne : n = owner
  · rw [hne, hg.self]
    cases f.cells[owner]? <;> rfl
  · rw [hg.old n hn hne]

/-- **Filling a node** links its children to it. -/
theorem Filled.linked {change : Properties → Properties} {named : List ParseTree}
    (hg : Filled describe src shift owner change named f g) (howner : owner < f.cells.size)
    (hf : Linked f) : Linked g := by
  intro n c hc
  have keep : c ∈ f.children n → n < c ∧ g.parent? c = some n := fun hc => by
    obtain ⟨hlt, hparent⟩ := hf n c hc
    exact ⟨hlt, (hg.parent?_of_lt (lt_size_of_parent? hparent)).trans hparent⟩
  by_cases hn : n < f.cells.size
  · by_cases hne : n = owner
    · subst hne
      rw [Forest.children, hg.self, Array.getElem?_eq_getElem hn] at hc
      rcases List.mem_append.mp hc with hc | hc
      · exact keep (by rwa [Forest.children, Array.getElem?_eq_getElem hn])
      · obtain ⟨i, hi, rfl⟩ := List.mem_range'.mp hc
        rw [Nat.one_mul, Forest.parent?, hg.new i, List.getElem?_eq_getElem hi]
        exact ⟨Nat.lt_add_right i hn, rfl⟩
    · rw [Forest.children, hg.old n hn hne] at hc
      exact keep hc
  · -- A new node has no children yet.
    obtain ⟨i, rfl⟩ := Nat.exists_eq_add_of_le (Nat.le_of_not_lt hn)
    rw [Forest.children, hg.new i] at hc
    cases hi : named[i]? <;> simp [hi] at hc

/-! ## Promises -/

section Promises

variable (describe : Describe) (src : Bytes) (shift : Shift) (rootKind : String)

/-- The category that a node is made with. -/
def madeKind (w : Waiting) : String := if w.id = 0 then rootKind else categoryOf w.tree.kind

/-- **The tree that a waiting node will carry.** -/
def finished (w : Waiting) : Tree :=
  .node (madeKind rootKind w)
    (finishedProperties src w (nodeProperties describe src shift w.tree))
    (w.tree.namedChildren.map (converted describe src shift))

/-- **A node promises a tree**: it waits and will carry the tree, or it has the category and the
properties of the tree and its children promise the children. -/
inductive Promises (f : Forest) (waiting : List Waiting) : NodeId → Tree → Prop
  | due (w : Waiting) (mem : w ∈ waiting) :
      Promises f waiting w.id (finished describe src shift rootKind w)
  | there (n : NodeId) (cell : Forest.Cell) (kids : List Tree)
      (filled : ∀ w ∈ waiting, w.id ≠ n) (found : f.cells[n]? = some cell)
      (below : List.Forall₂ (Promises f waiting) cell.children kids) :
      Promises f waiting n (.node cell.kind cell.properties kids)

/-- **What holds at each moment of a run.** -/
structure Sound (root : Tree) (f : Forest) (waiting : List Waiting) : Prop where
  /-- No node waits twice. -/
  nodup : (waiting.map (·.id)).Nodup
  /-- A node that waits was made of its parse node. -/
  made : ∀ w ∈ waiting, ∃ parent, f.cells[w.id]?
    = some ⟨madeKind rootKind w, nodeProperties describe src shift w.tree, [], parent⟩
  links : Linked f
  /-- The first node promises the root. -/
  promises : Promises describe src shift rootKind f waiting 0 root

end Promises

/-- **A converted node** by the conversions of its named children. -/
theorem converted_eq (t : ParseTree) : converted describe src shift t
    = .node (categoryOf t.kind)
      (if t.namedChildren.isEmpty then
        (nodeProperties describe src shift t).set "text" (.text (t.text src))
      else nodeProperties describe src shift t)
      (t.namedChildren.map (converted describe src shift)) := by
  cases t with
  | node head children =>
    have h : (allBelow describe src shift (false || head.error) children).1
        = (children.filter (·.head.named)).map (converted describe src shift) :=
      allBelow_fst (false || head.error) children
    conv_lhs => unfold converted below
    dsimp only
    rw [h, List.isEmpty_map]
    rfl

theorem finished_of_ne (h : w.id ≠ 0) :
    finished describe src shift rootKind w = converted describe src shift w.tree := by
  rw [converted_eq, finished, madeKind, if_neg h, finishedProperties]
  simp [h]

theorem mem_children {c : Waiting} {next : NodeId} : c ∈ w.children next ↔
    ∃ i t, w.tree.namedChildren[i]? = some t
      ∧ c = ⟨next + i, t, w.insideError || w.tree.head.error⟩ := by
  rw [Waiting.children, List.mem_reverse, List.mem_map]
  constructor
  · rintro ⟨x, hx, rfl⟩
    obtain ⟨hle, hget⟩ := List.mk_mem_zipIdx_iff_le_and_getElem?_sub.mp hx
    exact ⟨x.2 - next, x.1, hget, by simp [Nat.add_sub_cancel' hle]⟩
  · rintro ⟨i, t, hget, rfl⟩
    refine ⟨(t, next + i), ?_, rfl⟩
    exact List.mk_mem_zipIdx_iff_le_and_getElem?_sub.mpr ⟨by omega, by simpa using hget⟩

theorem nodup_children (next : NodeId) : ((w.children next).map (·.id)).Nodup := by
  rw [Waiting.children, List.map_reverse, List.nodup_reverse, List.map_map]
  exact (List.zipIdx_map_snd ..).symm ▸ List.nodup_range'

/-- New children wait, and will carry the conversions of the named children. -/
theorem promises_children {next : NodeId} (hnext : 0 < next)
    (hin : ∀ c ∈ w.children next, c ∈ waiting) :
    List.Forall₂ (Promises describe src shift rootKind g waiting)
      (List.range' next w.tree.namedChildren.length)
      (w.tree.namedChildren.map (converted describe src shift)) := by
  rw [List.forall₂_map_right_iff, List.forall₂_iff_get]
  refine ⟨List.length_range', fun i _ hi => ?_⟩
  have hmem : ⟨next + i, w.tree.namedChildren[i], _⟩ ∈ w.children next :=
    mem_children.mpr ⟨i, _, List.getElem?_eq_getElem hi, rfl⟩
  have hdue : Promises describe src shift rootKind g waiting (next + i) _ := .due _ (hin _ hmem)
  rw [finished_of_ne (Nat.ne_of_gt (Nat.lt_add_right i hnext))] at hdue
  simpa [List.get_eq_getElem] using hdue

/-- **A step keeps every promise** of the nodes that were there before. -/
theorem Promises.step (hsound : Sound describe src shift rootKind root f (w :: waiting))
    (hg : Filled describe src shift w.id (finishedProperties src w) w.tree.namedChildren f g)
    {t : Tree} (hn : n < f.cells.size)
    (h : Promises describe src shift rootKind f (w :: waiting) n t) :
    Promises describe src shift rootKind g (w.children f.cells.size ++ waiting) n t := by
  obtain ⟨hnot, -⟩ := List.nodup_cons.mp hsound.nodup
  induction t using Tree.childrenInduction generalizing n with
  | h t ih =>
    have hnew : ∀ c ∈ w.children f.cells.size, c.id ≠ n := fun c hc => by
      obtain ⟨i, -, -, rfl⟩ := mem_children.mp hc
      exact Nat.ne_of_gt (Nat.lt_add_right i hn)
    cases h with
    | due d mem =>
      rcases List.mem_cons.mp mem with rfl | mem
      · obtain ⟨parent, hcell⟩ := hsound.made d List.mem_cons_self
        have hself := hg.self
        rw [hcell, Option.map_some] at hself
        refine .there d.id _ _ (fun c hc => ?_) hself ?_
        · rcases List.mem_append.mp hc with hc | hc
          · exact hnew c hc
          · exact fun heq => hnot (List.mem_map.mpr ⟨c, hc, heq⟩)
        · rw [List.nil_append]
          exact promises_children (Nat.zero_lt_of_lt hn) fun c hc => List.mem_append_left _ hc
      · exact .due d (List.mem_append_right _ mem)
    | there _ cell kids filled found below =>
      have hne : n ≠ w.id := (filled w List.mem_cons_self).symm
      refine .there n cell kids (fun c hc => ?_) ((hg.old n hn hne).trans found) ?_
      · rcases List.mem_append.mp hc with hc | hc
        · exact hnew c hc
        · exact filled c (List.mem_cons_of_mem _ hc)
      · refine forall₂_imp_of_mem below fun c hc kid hkid hpromise => ih kid hkid ?_ hpromise
        have hchild : c ∈ f.children n := by rwa [Forest.children, found]
        exact lt_size_of_parent? (hsound.links n c hchild).2

/-- A node that waits is there. -/
theorem Sound.lt_size (h : Sound describe src shift rootKind root f waiting) (hw : w ∈ waiting) :
    w.id < f.cells.size := by
  obtain ⟨parent, hcell⟩ := h.made w hw
  exact (Array.getElem?_eq_some_iff.mp hcell).1

theorem Sound.step (h : Sound describe src shift rootKind root f (w :: waiting))
    (hg : Filled describe src shift w.id (finishedProperties src w) w.tree.namedChildren f g) :
    Sound describe src shift rootKind root g (w.children f.cells.size ++ waiting) := by
  obtain ⟨hnot, hnodup⟩ := List.nodup_cons.mp h.nodup
  have hlt : ∀ c ∈ waiting, c.id < f.cells.size := fun c hc =>
    h.lt_size (List.mem_cons_of_mem _ hc)
  have hself : w.id < f.cells.size := h.lt_size List.mem_cons_self
  have hpos : 0 < f.cells.size := Nat.zero_lt_of_lt hself
  refine ⟨?_, fun c hc => ?_, hg.linked hself h.links, h.promises.step h hg hpos⟩
  · rw [List.map_append, List.nodup_append]
    refine ⟨nodup_children _, hnodup, fun a ha b hb => ?_⟩
    obtain ⟨c, hc, rfl⟩ := List.mem_map.mp ha
    obtain ⟨d, hd, rfl⟩ := List.mem_map.mp hb
    obtain ⟨i, t, -, rfl⟩ := mem_children.mp hc
    exact Nat.ne_of_gt (Nat.lt_add_right i (hlt d hd))
  · rcases List.mem_append.mp hc with hc | hc
    · obtain ⟨i, t, ht, rfl⟩ := mem_children.mp hc
      refine ⟨some w.id, ?_⟩
      rw [hg.new i, ht, madeKind, if_neg (Nat.ne_of_gt (Nat.lt_add_right i hpos))]
      rfl
    · obtain ⟨parent, hcell⟩ := h.made c (List.mem_cons_of_mem _ hc)
      refine ⟨parent, (hg.old c.id (hlt c hc) ?_).trans hcell⟩
      exact fun heq => hnot (List.mem_map.mpr ⟨c, hc, heq⟩)

/-! ## Faults -/

variable (describe src shift) in
/-- The faults of several trees are those of each. -/
theorem allBelow_snd (e : Bool) (ts : List ParseTree) : (allBelow describe src shift e ts).2
    = (((ts.filter (·.head.named)).map fun t => (below describe src shift e t).errorCount).sum,
      ((ts.filter (·.head.named)).map fun t => (below describe src shift e t).errorBytes).sum) := by
  induction ts with
  | nil => rfl
  | cons t rest ih =>
    cases t with
    | node head children =>
      unfold allBelow
      dsimp only
      rw [List.filter_cons]
      by_cases hnamed : head.named = true
      · rw [if_pos hnamed,
          if_pos (show (ParseTree.node head children).head.named = true from hnamed)]
        exact Prod.ext (congrArg (_ + Prod.fst ·) ih) (congrArg (_ + Prod.snd ·) ih)
      · rw [if_neg hnamed,
          if_neg (show ¬(ParseTree.node head children).head.named = true from hnamed), ih]

variable (describe src shift) in
/-- **The faults below a node**: its own, those of its children that are missing, and those
below its named children. -/
theorem below_faults (e : Bool) (t : ParseTree) :
    (below describe src shift e t).errorCount = (if t.head.error then 1 else 0) + missingChildren t
      + (t.namedChildren.map fun c =>
        (below describe src shift (e || t.head.error) c).errorCount).sum
    ∧ (below describe src shift e t).errorBytes = weight src e t.head
      + (t.namedChildren.map fun c =>
        (below describe src shift (e || t.head.error) c).errorBytes).sum := by
  cases t with
  | node head children =>
    have h := allBelow_snd describe src shift (e || head.error) children
    exact ⟨congrArg (_ + Prod.fst ·) h, congrArg (_ + Prod.snd ·) h⟩

/-- What is said of the children that wait is said of the named children. -/
theorem sum_children (measure : Bool → ParseTree → Nat) (next : NodeId) :
    ((w.children next).map fun c => measure c.insideError c.tree).sum
      = (w.tree.namedChildren.map (measure (w.insideError || w.tree.head.error))).sum := by
  rw [Waiting.children, List.map_reverse, List.sum_reverse, List.map_map]
  have hcomp : ((fun c : Waiting => measure c.insideError c.tree) ∘ fun c : ParseTree × NodeId =>
      ⟨c.2, c.1, w.insideError || w.tree.head.error⟩)
      = measure (w.insideError || w.tree.head.error) ∘ Prod.fst := rfl
  rw [hcomp, ← List.map_map, List.zipIdx_map_fst]

/-- **The run from a sound stack** ends with nothing that waits, and tells the faults of the
trees that waited. -/
theorem run_ok (count bytes : Nat) (h : Sound describe src shift rootKind root f waiting) :
    ∃ g, run describe src shift f count bytes waiting = .ok
        ⟨g, count + (waiting.map fun w =>
            (below describe src shift w.insideError w.tree).errorCount).sum,
          bytes + (waiting.map fun w =>
            (below describe src shift w.insideError w.tree).errorBytes).sum⟩
      ∧ Sound describe src shift rootKind root g [] := by
  induction hload : load waiting using Nat.strongRecOn generalizing f count bytes waiting with
  | ind total ih =>
    cases waiting with
    | nil => exact ⟨f, by simp [run], h⟩
    | cons w waiting =>
      obtain ⟨filled, hfill, hfilled⟩ := fill_ok describe src shift (h.lt_size List.mem_cons_self)
      have hlt : load (w.children f.cells.size ++ waiting) < total := by
        rw [load_append, ← hload]
        exact Nat.add_lt_add_right (load_children_lt w f.cells.size) (load waiting)
      obtain ⟨g, hrun, hg⟩ := ih _ hlt
        (count + (if w.tree.head.error then 1 else 0) + missingChildren w.tree)
        (bytes + weight src w.insideError w.tree.head) (h.step hfilled) rfl
      refine ⟨g, ?_, hg⟩
      rw [run, hfill]
      refine hrun.trans ?_
      obtain ⟨hcount, hbytes⟩ :=
        below_faults describe src shift w.insideError w.tree
      simp only [List.map_append, List.sum_append, List.map_cons, List.sum_cons, hcount, hbytes,
        sum_children fun e t => (below describe src shift e t).errorCount,
        sum_children fun e t => (below describe src shift e t).errorBytes, Nat.add_assoc]

/-! ## Reading the tree out -/

theorem Promises.lt_size {t : Tree} (h : Promises describe src shift rootKind f [] n t) :
    n < f.cells.size := by
  cases h with
  | due w mem => cases mem
  | there _ cell kids _ found => exact (Array.getElem?_eq_some_iff.mp found).1

/-- **A promise that is kept**: the tree is read out of the forest. Children are made after their
owner, so there are no more of them on a way down than nodes that follow. -/
theorem Promises.readTree {t : Tree} {depth : Nat} (hf : Linked f)
    (hdepth : f.cells.size ≤ depth + n) (h : Promises describe src shift rootKind f [] n t) :
    f.readTree depth n = some t := by
  induction t using Tree.childrenInduction generalizing n depth with
  | h t ih =>
    have hn := h.lt_size
    cases h with
    | due w mem => cases mem
    | there _ cell kids _ found below =>
      obtain ⟨depth, rfl⟩ : ∃ d, depth = d + 1 := Nat.exists_eq_succ_of_ne_zero fun h => by
        subst h
        exact Nat.not_lt.mpr hdepth (by rwa [Nat.zero_add])
      refine Forest.readTree_eq_some_iff.mpr ⟨cell, kids, found, ?_, rfl⟩
      refine Forest.mapM_eq_some_iff.mpr (forall₂_imp_of_mem below fun c hc kid hkid hpromise => ?_)
      have hchild : c ∈ f.children n := by rwa [Forest.children, found]
      refine ih kid hkid (hdepth.trans ?_) hpromise
      rw [Nat.add_assoc, Nat.add_comm 1]
      exact Nat.add_le_add_left (hf n c hchild).1 depth

/-! ## The whole conversion -/

theorem convert_root (t : ParseTree) (rootKind : Option String) :
    (t.convert src describe shift rootKind).root
      = .node (t.rootCategory rootKind) (nodeProperties describe src shift t)
        (t.namedChildren.map (converted describe src shift)) := by
  rw [← convert_children t rootKind]
  cases rootKind with
  | none => rfl
  | some kind =>
    by_cases h : kind = "" <;> simp [ParseTree.convert, ParseTree.rootCategory, Tree.children, h]

variable (describe src shift) in
theorem convert_faults (t : ParseTree) (rootKind : Option String) :
    (t.convert src describe shift rootKind).errorCount
      = (below describe src shift false t).errorCount
    ∧ (t.convert src describe shift rootKind).errorBytes
      = (below describe src shift false t).errorBytes := by
  cases t
  exact ⟨rfl, rfl⟩

/-- **The conversion by a work list** comes to an end without a refusal. The tree below the first
node is the one of the recursion, every child names its owner, and the faults are the same. -/
theorem convertByWorkList_ok (t : ParseTree) (src : Bytes) (describe : Describe) (shift : Shift)
    (rootKind : Option String) :
    ∃ o, t.convertByWorkList src describe shift rootKind = .ok o
      ∧ o.forest.toTree? 0 = some (t.convert src describe shift rootKind).root
      ∧ Linked o.forest
      ∧ o.errorCount = (t.convert src describe shift rootKind).errorCount
      ∧ o.errorBytes = (t.convert src describe shift rootKind).errorBytes := by
  have hstart : Sound describe src shift (t.rootCategory rootKind)
      (t.convert src describe shift rootKind).root
      (make describe src shift .empty (t.rootCategory rootKind) t) [⟨0, t, false⟩] := by
    refine ⟨List.nodup_singleton _, fun w hw => ?_, fun n c hc => ?_, ?_⟩
    · rw [List.mem_singleton.mp hw]
      exact ⟨none, rfl⟩
    · cases n <;> simp [make, Forest.children, Forest.empty] at hc
    · have hroot : finished describe src shift (t.rootCategory rootKind) ⟨0, t, false⟩
          = (t.convert src describe shift rootKind).root := by
        rw [convert_root, finished, finishedProperties, madeKind]
        simp
      exact hroot ▸ .due _ List.mem_cons_self
  obtain ⟨g, hrun, hg⟩ := run_ok 0 0 hstart
  obtain ⟨hcount, hbytes⟩ := convert_faults describe src shift t rootKind
  refine ⟨_, hrun, ?_, hg.links, ?_, ?_⟩
  · exact hg.promises.readTree hg.links (Nat.le_succ _)
  · simp [hcount]
  · simp [hbytes]

end SyntaxForest.Conversion
