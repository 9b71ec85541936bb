import SyntaxForest.Proofs.Forest.Links
import SyntaxForest.Proofs.Forest.Walk
import SyntaxForest.Proofs.Preorder
import SyntaxForest.Proofs.Work
import SyntaxForest.Tree.WorkList

/-!
# The work lists compare, write and read as the recursions do

Two trees are equal by the work list if they are by recursion (`Tree.equalByWorkList_eq`): whatever
waits is still to be equal, in whatever order it is taken.

Writing and reading make something before they make what is below it, in a store. An item that
waits is *due* a list of trees: those that its children will carry. Filling it makes the heads of
these trees, and each is due the trees below (`Fills`, `Due.step`). What does not wait is never
touched again, so that in the store that is left each item carries its tree (`Settled`). Read out
of its store, the record that is written is the recursion's (`Tree.toValueByWorkList_eq`), and so
is the tree that is read, or else the fault (`Tree.ofValueByWorkList_ok`,
`Tree.ofValueByWorkList_error`).
-/

namespace SyntaxForest.Tree

variable {a b t u : Tree} {trees kids : List Tree}

/-! ## Comparing -/

section Comparing

variable {shared : Bool}

theorem equalAll_eq (as bs : List Tree) : equalAll shared as bs
    = (as.length == bs.length && (as.zip bs).all fun p => p.1.equal shared p.2) := by
  induction as generalizing bs with
  | nil => cases bs <;> rfl
  | cons a as ih =>
    cases bs with
    | nil => rfl
    | cons b bs =>
      have hlength : ((a :: as).length == (b :: bs).length) = (as.length == bs.length) := by
        simp
      rw [equalAll, ih, hlength, List.zip_cons_cons, List.all_cons, Bool.and_left_comm]

/-- **Equality one level down**: the heads are the same, and the children are equal. -/
theorem equal_eq (a b : Tree) : a.equal shared b
    = (sameHead shared a b && (a.children.zip b.children).all fun p => p.1.equal shared p.2) := by
  cases a
  cases b
  rw [equal, equalAll_eq, ← Bool.and_assoc]
  rfl

/-- **The pairs that wait** are equal if each of them is. -/
theorem equalFrom_eq_all (pairs : List (Tree × Tree)) :
    equalFrom shared pairs = pairs.all fun p => p.1.equal shared p.2 := by
  fun_induction equalFrom shared pairs with
  | case1 => rfl
  | case2 a b waiting ih =>
    rw [ih, List.all_append, List.all_reverse, List.all_cons, equal_eq a b, Bool.and_assoc]

/-- **The work list compares as the recursion does.** -/
theorem equalByWorkList_eq (shared : Bool) (a b : Tree) :
    a.equalByWorkList shared b = a.equal shared b := by
  rw [equalByWorkList, equalFrom_eq_all, List.all_cons, List.all_nil, Bool.and_true]

end Comparing

/-! ## Stores -/

section Stores

variable {look mid look' : Nat → Option Draft} {size owner n depth : Nat}
  {due : List (Nat × List Tree)}

/-- **What is at a place carries a tree**: it has the head of the tree, and its children, which
have later places, carry the children. -/
inductive Carries (look : Nat → Option Draft) : Nat → Tree → Prop
  | node (n : Nat) (d : Draft) (kids : List Tree) (found : look n = some d)
      (later : ∀ c ∈ d.children, n < c) (below : List.Forall₂ (Carries look) d.children kids) :
      Carries look n (.node d.kind d.properties kids)

/-- **What filling does** to a store of some size: the one at `owner` gets children that have the
heads of the trees, and the others stay as they are. -/
structure Fills (size owner : Nat) (kids : List Tree) (look look' : Nat → Option Draft) : Prop where
  self : look' owner = (look owner).map fun d =>
    { d with children := d.children ++ List.range' size kids.length }
  old : ∀ n < size, n ≠ owner → look' n = look n
  new : ∀ i, look' (size + i) = kids[i]?.map draft

theorem Fills.nil (h : ∀ n, size ≤ n → look n = none) : Fills size owner [] look look := by
  refine ⟨?_, fun _ _ _ => rfl, fun i => h _ (Nat.le_add_right size i)⟩
  cases look owner <;> simp

theorem Fills.cons (howner : owner < size) (hone : Fills size owner [t] look mid)
    (hrest : Fills (size + 1) owner kids mid look') : Fills size owner (t :: kids) look look' := by
  refine ⟨?_, fun n hn hne => ?_, fun i => ?_⟩
  · rw [hrest.self, hone.self, Option.map_map]
    simp [List.range'_succ, Function.comp_def]
  · rw [hrest.old n (Nat.lt_succ_of_lt hn) hne, hone.old n hn hne]
  · cases i with
    | zero =>
      rw [Nat.add_zero, hrest.old size (Nat.lt_succ_self size) (Nat.ne_of_gt howner)]
      exact hone.new 0
    | succ i =>
      rw [Nat.add_comm i 1, ← Nat.add_assoc, hrest.new i, Nat.add_comm 1 i,
        List.getElem?_cons_succ]

/-- **What is due** to the items that wait: each is in the store, without children yet. -/
structure Due (size : Nat) (due : List (Nat × List Tree)) (look : Nat → Option Draft) : Prop where
  /-- Nothing waits twice. -/
  nodup : (due.map Prod.fst).Nodup
  made : ∀ w ∈ due, w.1 < size ∧ ∃ kind props, look w.1 = some ⟨kind, props, []⟩

/-- What is due to the children of an item, which are made from the place `size` on. -/
def dueBelow (size : Nat) (kids : List Tree) : List (Nat × List Tree) :=
  ((kids.zipIdx size).map fun c => (c.2, c.1.children)).reverse

theorem mem_dueBelow {w : Nat × List Tree} : w ∈ dueBelow size kids ↔
    ∃ i t, kids[i]? = some t ∧ w = (size + i, t.children) := by
  rw [dueBelow, List.mem_reverse, List.mem_map]
  constructor
  · rintro ⟨x, hx, rfl⟩
    obtain ⟨hle, hget⟩ := List.mk_mem_zipIdx_iff_le_and_getElem?_sub.mp hx
    exact ⟨x.2 - size, x.1, hget, by rw [Nat.add_sub_cancel' hle]⟩
  · rintro ⟨i, t, hget, rfl⟩
    refine ⟨(t, size + i), ?_, rfl⟩
    exact List.mk_mem_zipIdx_iff_le_and_getElem?_sub.mpr
      ⟨Nat.le_add_right .., by rwa [Nat.add_sub_cancel_left]⟩

/-- **Filling the first that waits** leaves its children waiting. -/
theorem Due.step (h : Due size ((n, kids) :: due) look) (hfills : Fills size n kids look look') :
    Due (size + kids.length) (dueBelow size kids ++ due) look' := by
  obtain ⟨hnot, hnodup⟩ := List.nodup_cons.mp h.nodup
  obtain ⟨-, hmade⟩ := List.forall_mem_cons.mp h.made
  refine ⟨?_, fun w hw => ?_⟩
  · rw [List.map_append, List.nodup_append]
    refine ⟨?_, hnodup, fun x hx y hy => ?_⟩
    · rw [dueBelow, List.map_reverse, List.nodup_reverse, List.map_map]
      exact (List.zipIdx_map_snd ..).symm ▸ List.nodup_range'
    · obtain ⟨c, hc, rfl⟩ := List.mem_map.mp hx
      obtain ⟨w, hw, rfl⟩ := List.mem_map.mp hy
      obtain ⟨i, t, -, rfl⟩ := mem_dueBelow.mp hc
      exact Nat.ne_of_gt (Nat.lt_add_right i (hmade w hw).1)
  · rcases List.mem_append.mp hw with hw | hw
    · obtain ⟨i, t, ht, rfl⟩ := mem_dueBelow.mp hw
      obtain ⟨hi, -⟩ := List.getElem?_eq_some_iff.mp ht
      exact ⟨Nat.add_lt_add_left hi size, t.kind, t.properties, by rw [hfills.new, ht]; rfl⟩
    · obtain ⟨hlt, kind, props, hlook⟩ := hmade w hw
      have hne : w.1 ≠ n := fun heq => hnot (List.mem_map.mpr ⟨w, hw, heq⟩)
      exact ⟨Nat.lt_add_right _ hlt, kind, props, (hfills.old _ hlt hne).trans hlook⟩

/-- **What a run leaves**: what did not wait is as it was, and each item that waited carries the
trees that it was due. -/
structure Settled (size : Nat) (due : List (Nat × List Tree)) (look left : Nat → Option Draft) :
    Prop where
  kept : ∀ n < size, (∀ w ∈ due, w.1 ≠ n) → left n = look n
  carried : ∀ w ∈ due, ∀ kind props, look w.1 = some ⟨kind, props, []⟩ →
    Carries left w.1 (.node kind props w.2)

theorem Settled.nil : Settled size [] look look := ⟨fun _ _ _ => rfl, List.forall_mem_nil _⟩

/-- An item with the head of a tree that is due the children of the tree carries it. -/
theorem Settled.carries {left : Nat → Option Draft} (h : Settled size due look left)
    (hdue : (n, t.children) ∈ due) (hlook : look n = some t.draft) : Carries left n t := by
  cases t
  exact h.carried _ hdue _ _ hlook

/-- A root that is made and has no children yet can wait for them. -/
theorem Due.root (hlook : look 0 = some t.draft) : Due 1 [(0, t.children)] look := by
  refine ⟨List.nodup_singleton _, fun w hw => ?_⟩
  rw [List.mem_singleton.mp hw]
  exact ⟨Nat.one_pos, t.kind, t.properties, hlook⟩

/-- New children carry their trees once nothing waits. -/
theorem Settled.forall₂_below {left : Nat → Option Draft}
    (hfills : Fills size n kids look look')
    (hleft : Settled (size + kids.length) (dueBelow size kids ++ due) look' left) :
    List.Forall₂ (Carries left) (List.range' size kids.length) kids := by
  refine List.forall₂_iff_get.mpr ⟨List.length_range', fun i _ hi => ?_⟩
  have hget : kids[i]? = some kids[i] := List.getElem?_eq_getElem hi
  have hmem : (size + i, kids[i].children) ∈ dueBelow size kids ++ due :=
    List.mem_append_left _ (mem_dueBelow.mpr ⟨i, _, hget, rfl⟩)
  have hcarries := hleft.carries hmem (by rw [hfills.new, hget]; rfl)
  simpa [List.get_eq_getElem] using hcarries

/-- **What is left after filling** settles what waited before. -/
theorem Settled.step {left : Nat → Option Draft} (h : Due size ((n, kids) :: due) look)
    (hfills : Fills size n kids look look')
    (hleft : Settled (size + kids.length) (dueBelow size kids ++ due) look' left) :
    Settled size ((n, kids) :: due) look left := by
  obtain ⟨hnot, -⟩ := List.nodup_cons.mp h.nodup
  obtain ⟨⟨hn, -⟩, hmade⟩ := List.forall_mem_cons.mp h.made
  -- An old place that does not wait further on keeps what filling has left in it.
  have kept : ∀ m < size, (∀ w ∈ due, w.1 ≠ m) → left m = look' m := fun m hm hout => by
    refine hleft.kept m (Nat.lt_add_right _ hm) fun w hw => ?_
    rcases List.mem_append.mp hw with hw | hw
    · obtain ⟨i, t, -, rfl⟩ := mem_dueBelow.mp hw
      exact Nat.ne_of_gt (Nat.lt_add_right i hm)
    · exact hout w hw
  refine ⟨fun m hm hout => ?_, List.forall_mem_cons.mpr
    ⟨fun kind props hlook => ?_, fun w hw kind props hlook => ?_⟩⟩
  · obtain ⟨hne, hout⟩ := List.forall_mem_cons.mp hout
    exact (kept m hm hout).trans (hfills.old m hm hne.symm)
  · have hself : left n = some ⟨kind, props, List.range' size kids.length⟩ := by
      rw [kept n hn fun w hw heq => hnot (List.mem_map.mpr ⟨w, hw, heq⟩), hfills.self, hlook]
      rfl
    refine .node n _ kids hself (fun c hc => ?_) (hleft.forall₂_below hfills)
    exact Nat.lt_of_lt_of_le hn (List.left_le_of_mem_range' hc)
  · have hne : w.1 ≠ n := fun heq => hnot (List.mem_map.mpr ⟨w, hw, heq⟩)
    exact hleft.carried w (List.mem_append_right _ hw) kind props
      ((hfills.old _ (hmade w hw).1 hne).trans hlook)

end Stores

/-! ## Writing -/

section Writing

variable {drafts : Array Draft} {owner place depth : Nat}

/-- **Making and appending one record.** -/
theorem fills_push (t : Tree) (howner : owner < drafts.size) :
    Fills drafts.size owner [t] (drafts[·]?) fun n =>
      ((drafts.push t.draft).modify owner fun d =>
        { d with children := d.children ++ [drafts.size] })[n]? := by
  refine ⟨?_, fun n hn hne => ?_, fun i => ?_⟩
  all_goals
    simp only [Array.getElem?_modify, Array.getElem?_push]
    grind

theorem writeChildren_fills (trees : List Tree) (howner : owner < drafts.size) :
    (writeChildren owner drafts trees).size = drafts.size + trees.length
      ∧ Fills drafts.size owner trees (drafts[·]?) ((writeChildren owner drafts trees)[·]?) := by
  induction trees generalizing drafts with
  | nil => exact ⟨rfl, .nil fun n hn => Array.getElem?_eq_none hn⟩
  | cons t rest ih =>
    rw [writeChildren]
    have hone := fills_push t howner
    have hsize : ((drafts.push t.draft).modify owner fun d =>
        { d with children := d.children ++ [drafts.size] }).size = drafts.size + 1 := by simp
    obtain ⟨hlength, hrest⟩ := ih (hsize ▸ Nat.lt_add_one_of_lt howner)
    rw [hsize] at hlength hrest
    exact ⟨by rw [hlength, List.length_cons]; omega, hone.cons howner hrest⟩

/-- What is due to the records that wait. -/
def dueOf (waiting : List (Tree × Nat)) : List (Nat × List Tree) :=
  waiting.map fun w => (w.2, w.1.children)

/-- **The run of the writer** settles the records that wait. -/
theorem writeFrom_settled (waiting : List (Tree × Nat)) (drafts : Array Draft)
    (h : Due drafts.size (dueOf waiting) (drafts[·]?)) :
    Settled drafts.size (dueOf waiting) (drafts[·]?) ((writeFrom drafts waiting)[·]?) := by
  fun_induction writeFrom drafts waiting with
  | case1 drafts => exact .nil
  | case2 drafts t place waiting ih =>
    have hplace : place < drafts.size := (h.made _ List.mem_cons_self).1
    obtain ⟨hsize, hfills⟩ := writeChildren_fills t.children hplace
    have hdue : dueOf ((t.children.zipIdx drafts.size).reverse ++ waiting)
        = dueBelow drafts.size t.children ++ dueOf waiting := by
      rw [dueOf, List.map_append, List.map_reverse]
      rfl
    rw [hsize, hdue] at ih
    exact (ih (h.step hfills)).step h hfills

theorem toValues_eq_map (trees : List Tree) : toValues trees = trees.map toValue := by
  induction trees with
  | nil => rfl
  | cons t rest ih => rw [toValues, ih, List.map_cons]

/-- **The record that a draft comes to** is the one of the tree that it carries. Children are
made after the record that they are in, so there are no more of them on a way down than records
that follow. -/
theorem Carries.readRecord (h : Carries (drafts[·]?) place t)
    (hdepth : drafts.size ≤ depth + place) :
    readRecord drafts depth place = some t.toValue := by
  induction t using childrenInduction generalizing place depth with
  | h t ih =>
    obtain ⟨_, d, kids, found, later, below⟩ := h
    have hlt : place < drafts.size := (Array.getElem?_eq_some_iff.mp found).1
    obtain ⟨depth, rfl⟩ : ∃ m, depth = m + 1 :=
      Nat.exists_eq_succ_of_ne_zero fun hzero => by omega
    have hbelow : d.children.mapM (Tree.readRecord drafts depth) = some (toValues kids) := by
      rw [toValues_eq_map, Forest.mapM_eq_some_iff, List.forall₂_map_right_iff]
      refine forall₂_imp_of_mem below fun c hc kid hkid hcarries => ih kid hkid hcarries ?_
      have hc := later c hc
      omega
    rw [Tree.readRecord, found]
    simp only [Option.bind_eq_bind, Option.bind_some, hbelow, toValue]
    rfl

/-- **The work list writes what the recursion writes.** -/
theorem toValueByWorkList_eq (t : Tree) : t.toValueByWorkList = some t.toValue := by
  have hsettled := writeFrom_settled [(t, 0)] #[t.draft] (.root rfl)
  exact (hsettled.carries List.mem_cons_self rfl).readRecord (Nat.le_refl _)

end Writing

/-! ## Reading, one level at a time -/

section Levels

variable {record : Value} {items : List Value} {fault : Fault}

theorem belowEntries_eq (entries : List (Value × Value)) : belowEntries entries
    = match Value.field "children" entries with
      | none => .ok []
      | some value => readChildren value := by
  induction entries with
  | nil => rfl
  | cons e rest ih =>
    obtain ⟨key, value⟩ := e
    rw [belowEntries, Value.field, Value.lookup, List.find?_cons]
    by_cases h : key.same (.text "children") = true
    · rw [if_pos h, h]
      rfl
    · rw [if_neg h, ih, Bool.eq_false_of_not_eq_true h]
      rfl

/-- The heads of the records in a list, then what is below each of them. -/
def readList (items : List Value) : Except Fault (List Tree) := do
  let heads ← items.mapM readHead
  let below ← readAllBelow items
  return List.zipWith (fun (head : String × Properties) c => node head.1 head.2 c) heads below

theorem readChildren_eq (value : Value) : readChildren value = recordsIn value >>= readList := by
  unfold readChildren
  split
  · rfl
  · rfl
  · rfl
  · rfl
  · next hlist htuple htext hdict =>
    rw [recordsIn]
    · rfl
    all_goals assumption

/-- **What is below a record** is read from the records that it has. -/
theorem readBelow_eq (record : Value) : readBelow record = recordsBelow record >>= readList := by
  cases record with
  | dict entries =>
    rw [readBelow, belowEntries_eq, recordsBelow]
    cases Value.field "children" entries with
    | none => rfl
    | some value => exact readChildren_eq value
  | _ => rfl

theorem readAllBelow_eq (items : List Value) :
    readAllBelow items = (items.reverse.mapM readBelow).map List.reverse := by
  induction items with
  | nil => rfl
  | cons v rest ih =>
    rw [readAllBelow, ih, List.reverse_cons, List.mapM_append]
    cases rest.reverse.mapM readBelow with
    | error fault => rfl
    | ok later =>
      rw [List.mapM_cons]
      cases readBelow v with
      | error fault => rfl
      | ok mine => exact congrArg Except.ok (List.reverse_concat ..).symm

/-- A record is read if its head is, and what is below it. -/
theorem ofValue_eq_ok_iff : ofValue record = .ok t ↔
    readHead record = .ok (t.kind, t.properties) ∧ readBelow record = .ok t.children := by
  obtain ⟨kind, props, children⟩ := t
  rw [ofValue]
  constructor
  · intro h
    obtain ⟨head, hhead, h⟩ := exists_of_bind_eq_ok h
    obtain ⟨below, hbelow, h⟩ := exists_of_bind_eq_ok h
    obtain ⟨rfl, rfl, rfl⟩ := node.inj (Except.ok.inj h)
    exact ⟨hhead, hbelow⟩
  · rintro ⟨hhead, hbelow⟩
    rw [hhead]
    change readBelow record >>= _ = _
    rw [hbelow]
    rfl

theorem forall₂_of_readAllBelow_eq_ok {below : List (List Tree)}
    (h : readAllBelow items = .ok below) :
    List.Forall₂ (fun v b => readBelow v = .ok b) items below := by
  rw [readAllBelow_eq] at h
  obtain ⟨found, hfound, rfl⟩ := exists_of_map_eq_ok h
  have hforall := List.forall₂_reverse_iff.mpr (mapM_eq_ok_iff.mp hfound)
  rwa [List.reverse_reverse] at hforall

/-- The trees of several records, from their heads and what is below them. -/
theorem forall₂_zipWith {heads : List (String × Properties)} {below : List (List Tree)}
    (hheads : List.Forall₂ (fun v head => readHead v = .ok head) items heads)
    (hbelow : List.Forall₂ (fun v b => readBelow v = .ok b) items below) :
    List.Forall₂ (fun v t => ofValue v = .ok t) items
      (List.zipWith (fun head c => node head.1 head.2 c) heads below) := by
  induction hheads generalizing below with
  | nil => exact .nil
  | cons hhead _ ih =>
    cases hbelow with
    | cons hmine hrest => exact .cons (ofValue_eq_ok_iff.mpr ⟨hhead, hmine⟩) (ih hrest)

/-- **A list that is read** has the tree of each of its records. -/
theorem forall₂_of_readList_eq_ok (h : readList items = .ok kids) :
    List.Forall₂ (fun v t => ofValue v = .ok t) items kids := by
  obtain ⟨heads, hheads, h⟩ := exists_of_bind_eq_ok h
  obtain ⟨below, hbelow, h⟩ := exists_of_bind_eq_ok h
  obtain rfl := Except.ok.inj h
  exact forall₂_zipWith (mapM_eq_ok_iff.mp hheads) (forall₂_of_readAllBelow_eq_ok hbelow)

end Levels

/-! ## Reading -/

section Reading

variable {f g : Forest} {owner n depth : Nat} {record : Value} {items : List Value}
  {waiting : List (Value × NodeId)} {due : List (Nat × List Tree)} {fault : Fault}

/-- What a forest has at a place, the owners left out. -/
def drafts (f : Forest) (n : Nat) : Option Draft :=
  f.cells[n]?.map fun c => ⟨c.kind, c.properties, c.children⟩

/-- **Making and appending one node.** It has no owner yet, so it is never refused. -/
theorem add_push (t : Tree) (howner : owner < f.cells.size) :
    ∃ g, Forest.add ⟨f.cells.push ⟨t.kind, t.properties, [], none⟩⟩ owner f.cells.size = .ok g
      ∧ g.cells.size = f.cells.size + 1
      ∧ Fills f.cells.size owner [t] (drafts f) (drafts g) := by
  have hparent : (⟨f.cells.push ⟨t.kind, t.properties, [], none⟩⟩ : Forest).parent? f.cells.size
      = none := by
    simp [Forest.parent?]
  refine ⟨_, by rw [Forest.add, Forest.adopt_of_none hparent]; rfl, by simp [Forest.modify], ?_,
    fun n hn hne => ?_, fun i => ?_⟩
  all_goals
    simp only [drafts, Forest.modify, Array.getElem?_modify, Array.getElem?_push]
    grind [draft]

theorem readInto_ok (howner : owner < f.cells.size)
    (h : List.Forall₂ (fun v t => readHead v = .ok (t.kind, t.properties)) items kids) :
    ∃ g, readInto owner f items = .ok g ∧ g.cells.size = f.cells.size + kids.length
      ∧ Fills f.cells.size owner kids (drafts f) (drafts g) := by
  induction h generalizing f with
  | nil =>
    refine ⟨f, rfl, rfl, .nil fun n hn => ?_⟩
    rw [drafts, Array.getElem?_eq_none hn]
    rfl
  | @cons v t items kids hhead _ ih =>
    obtain ⟨mid, hadd, hmid, hone⟩ := add_push t howner
    obtain ⟨g, hok, hsize, hrest⟩ := ih (hmid ▸ Nat.lt_add_one_of_lt howner)
    rw [hmid] at hsize hrest
    refine ⟨g, ?_, by rw [hsize, List.length_cons]; omega, hone.cons howner hrest⟩
    rw [readInto, hhead]
    change Forest.add _ owner f.cells.size >>= _ = _
    rw [hadd]
    exact hok

theorem readInto_error (h : items.mapM readHead = .error fault)
    (howner : owner < f.cells.size) : readInto owner f items = .error (.fault fault) := by
  induction items generalizing f with
  | nil => cases h
  | cons v rest ih =>
    rw [readInto]
    obtain hhead | ⟨⟨kind, props⟩, hhead, hrest⟩ := mapM_cons_eq_error_iff.mp h
    · rw [hhead]
      rfl
    · obtain ⟨g, hadd, hsize, -⟩ := add_push (.node kind props []) howner
      rw [hhead]
      change Forest.add ⟨f.cells.push ⟨kind, props, [], none⟩⟩ owner f.cells.size >>= _ = _
      exact (congrArg (· >>= _) hadd).trans (ih hrest (hsize ▸ Nat.lt_add_one_of_lt howner))

theorem mapM_zipIdx (items : List Value) (next : NodeId) :
    ((items.zipIdx next).reverse.mapM fun w => readBelow w.1) = items.reverse.mapM readBelow := by
  have hitems : items.reverse = (items.zipIdx next).reverse.map Prod.fst := by
    rw [List.map_reverse, List.zipIdx_map_fst]
  rw [hitems, List.mapM_map]
  rfl

/-- Records that are read are due what is below them. -/
theorem forall₂_dueBelow {next : NodeId}
    (h : List.Forall₂ (fun v t => ofValue v = .ok t) items kids) :
    List.Forall₂ (fun (w : Value × NodeId) (d : Nat × List Tree) =>
      w.2 = d.1 ∧ readBelow w.1 = .ok d.2) (items.zipIdx next).reverse (dueBelow next kids) := by
  rw [dueBelow, List.forall₂_reverse_iff, List.forall₂_map_right_iff]
  induction h generalizing next with
  | nil => exact .nil
  | cons hread _ ih => exact .cons ⟨rfl, (ofValue_eq_ok_iff.mp hread).2⟩ ih

/-- **The run of the reader** settles the nodes that wait, if what is below their records is
read. -/
theorem readFrom_ok (f : Forest) (waiting : List (Value × NodeId))
    (hwaits : List.Forall₂ (fun w d => w.2 = d.1 ∧ readBelow w.1 = .ok d.2) waiting due)
    (h : Due f.cells.size due (drafts f)) :
    ∃ g, readFrom f waiting = .ok g ∧ Settled f.cells.size due (drafts f) (drafts g) := by
  fun_induction readFrom f waiting generalizing due with
  | case1 f =>
    cases hwaits
    exact ⟨f, rfl, .nil⟩
  | case2 f record id waiting fault hbelow =>
    obtain ⟨⟨_, kids⟩, due, ⟨rfl, hkids⟩, hwaits, rfl⟩ := List.forall₂_cons_left_iff.mp hwaits
    rw [readBelow_eq, hbelow] at hkids
    cases hkids
  | case3 f record id waiting items hitems ih =>
    obtain ⟨⟨_, kids⟩, due, ⟨rfl, hkids⟩, hrest, rfl⟩ := List.forall₂_cons_left_iff.mp hwaits
    rw [readBelow_eq, hitems] at hkids
    have hread := forall₂_of_readList_eq_ok hkids
    obtain ⟨mid, hmid, hsize, hfills⟩ := readInto_ok (h.made _ List.mem_cons_self).1
      (hread.imp fun v t ht => (ofValue_eq_ok_iff.mp ht).1)
    have hnext : List.Forall₂ (fun w d => w.2 = d.1 ∧ readBelow w.1 = .ok d.2)
        ((items.zipIdx f.cells.size).reverse ++ waiting)
        (dueBelow f.cells.size kids ++ due) :=
      List.rel_append (forall₂_dueBelow hread) hrest
    obtain ⟨g, hg, hsettled⟩ := ih mid hnext (hsize ▸ h.step hfills)
    refine ⟨g, ?_, (hsize ▸ hsettled).step h hfills⟩
    rw [hmid]
    exact hg

/-- **A record in front fails** in the heads of the records that it has, or else what waits after
them fails. -/
theorem mapM_readBelow_cons {id : NodeId} (hitems : recordsBelow record = .ok items)
    (h : ((record, id) :: waiting).mapM (fun w => readBelow w.1) = .error fault) (next : NodeId) :
    items.mapM readHead = .error fault ∨ ∃ heads, items.mapM readHead = .ok heads
      ∧ ((items.zipIdx next).reverse ++ waiting).mapM (fun w => readBelow w.1) = .error fault := by
  have hread : readBelow record = readList items := by rw [readBelow_eq, hitems]; rfl
  rw [mapM_append_eq_error_iff, mapM_zipIdx]
  rw [mapM_cons_eq_error_iff, hread] at h
  obtain h | ⟨kids, hkids, hrest⟩ := h
  · obtain hheads | ⟨heads, hheads, h⟩ := bind_eq_error_iff.mp h
    · exact .inl hheads
    · rw [readAllBelow_eq] at h
      exact .inr ⟨heads, hheads, .inl (bind_ok_eq_error_iff.mp (bind_ok_eq_error_iff.mp h))⟩
  · obtain ⟨heads, hheads, h⟩ := exists_of_bind_eq_ok hkids
    obtain ⟨below, hbelow, -⟩ := exists_of_bind_eq_ok h
    rw [readAllBelow_eq] at hbelow
    obtain ⟨found, hfound, -⟩ := exists_of_map_eq_ok hbelow
    exact .inr ⟨heads, hheads, .inr ⟨found, hfound, hrest⟩⟩

/-- **The run of the reader** fails with the first fault below the records that wait. -/
theorem readFrom_error (f : Forest) (waiting : List (Value × NodeId))
    (hin : ∀ w ∈ waiting, w.2 < f.cells.size)
    (h : waiting.mapM (fun w => readBelow w.1) = .error fault) :
    readFrom f waiting = .error (.fault fault) := by
  fun_induction readFrom f waiting with
  | case1 f => cases h
  | case2 f record id waiting other hbelow =>
    rw [List.mapM_cons, readBelow_eq, hbelow] at h
    cases h
    rfl
  | case3 f record id waiting items hitems ih =>
    obtain ⟨hid, hin⟩ := List.forall_mem_cons.mp hin
    obtain hheads | ⟨heads, hheads, hmore⟩ := mapM_readBelow_cons hitems h f.cells.size
    · rw [readInto_error hheads hid]
      rfl
    · have hkids : List.Forall₂ (fun v t => readHead v = .ok (t.kind, t.properties)) items
          (heads.map fun head => node head.1 head.2 []) :=
        List.forall₂_map_right_iff.mpr (mapM_eq_ok_iff.mp hheads)
      obtain ⟨mid, hmid, hsize, -⟩ := readInto_ok hid hkids
      rw [hmid]
      refine ih mid (fun w hw => ?_) hmore
      rw [hsize, ← hkids.length_eq]
      rcases List.mem_append.mp hw with hw | hw
      · exact List.snd_lt_add_of_mem_zipIdx (List.mem_reverse.mp hw)
      · exact Nat.lt_add_right _ (hin w hw)

/-- **The tree in a forest that carries it** is read out of it. -/
theorem Carries.readTree (h : Carries (drafts f) n t) (hdepth : f.cells.size ≤ depth + n) :
    f.readTree depth n = some t := by
  induction t using childrenInduction generalizing n depth with
  | h t ih =>
    obtain ⟨_, d, kids, found, later, below⟩ := h
    obtain ⟨cell, hcell, rfl⟩ := Option.map_eq_some_iff.mp found
    have hlt : n < f.cells.size := (Array.getElem?_eq_some_iff.mp hcell).1
    obtain ⟨depth, rfl⟩ : ∃ m, depth = m + 1 :=
      Nat.exists_eq_succ_of_ne_zero fun hzero => by omega
    refine Forest.readTree_eq_some_iff.mpr ⟨cell, kids, hcell, ?_, rfl⟩
    refine Forest.mapM_eq_some_iff.mpr (forall₂_imp_of_mem below fun c hc kid hkid hcarries =>
      ih kid hkid hcarries ?_)
    have hc := later c hc
    omega

/-- **The work list reads the tree that the recursion reads.** -/
theorem ofValueByWorkList_ok (h : ofValue record = .ok t) :
    ∃ f, ofValueByWorkList record = .ok f ∧ f.toTree? 0 = some t := by
  obtain ⟨hhead, hbelow⟩ := ofValue_eq_ok_iff.mp h
  let start : Forest := ⟨#[⟨t.kind, t.properties, [], none⟩]⟩
  obtain ⟨f, hf, hsettled⟩ := readFrom_ok start [(record, 0)] (.cons ⟨rfl, hbelow⟩ .nil)
    (Due.root rfl)
  have hcarries := hsettled.carries (List.mem_cons_self) rfl
  refine ⟨f, ?_, hcarries.readTree (Nat.le_succ _)⟩
  rw [ofValueByWorkList, hhead]
  exact hf

/-- **The work list fails as the recursion does.** -/
theorem ofValueByWorkList_error (h : ofValue record = .error fault) :
    ofValueByWorkList record = .error (.fault fault) := by
  rw [ofValue] at h
  rw [ofValueByWorkList]
  obtain hhead | ⟨head, hhead, h⟩ := bind_eq_error_iff.mp h
  · rw [hhead]
    rfl
  · rw [hhead]
    refine readFrom_error _ _ (fun w hw => ?_) (mapM_cons_eq_error_iff.mpr (.inl ?_))
    · rw [List.mem_singleton.mp hw]
      exact Nat.one_pos
    · exact bind_ok_eq_error_iff.mp h

end Reading

end SyntaxForest.Tree
