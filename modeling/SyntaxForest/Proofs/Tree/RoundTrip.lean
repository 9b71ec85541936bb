import Mathlib.Tactic.Choose
import SyntaxForest.Proofs.Tree.WorkList

/-!
# Trees and their records

A tree is written as a record and read back. Nothing is lost on the way: the tree that is read
is the one that was written (`Tree.ofValue_toValue`), and the records that are read and written
again unchanged are those of the written form (`Value.isRecord_iff`), which is told here without
the writer.

Trees are compared by what they hold, and so are records. The two comparisons agree
(`Tree.equal_eq_same`) on trees in which no node has a property twice and no property is a nan. A
nan equals itself only where the trees share it, and two records never say what they share.

All this is proved of the recursions, and holds of the work lists because they write, read and
compare as the recursions do (`Tree.roundTrip`).
-/

namespace SyntaxForest

open Number

/-- **No key occurs twice.** -/
def Properties.Keyed (props : Properties) : Prop := (props.map Prod.fst).Nodup

/-- Whether a scalar is a nan. -/
def Scalar.isNan : Scalar → Bool
  | .real x => x.place == .nowhere
  | _ => false

namespace Tree

/-- No node of the tree has a property twice. -/
def Keyed (t : Tree) : Prop := ∀ n ∈ t.walk, n.properties.Keyed

/-- No property of the tree is a nan. -/
def NanFree (t : Tree) : Prop := ∀ n ∈ t.walk, ∀ p ∈ n.properties, p.2.isNan = false

end Tree

/-- **The written form of a tree**: a dictionary that holds a category, properties with no key
twice, and a list of dictionaries of that form. -/
inductive Value.IsRecord : Value → Prop
  | record (kind : String) (props : Properties) (keyed : props.Keyed) (children : List Value)
      (below : ∀ c ∈ children, IsRecord c) :
      IsRecord (.record [("node_type", .text kind), ("properties", props.toValue),
        ("children", .list children)])

namespace Value

@[simp] theorem same_text (s t : String) : (text s).same (text t) = (s == t) := by
  rw [same]

@[simp] theorem same_list (xs ys : List Value) : (list xs).same (list ys) = sameItems xs ys := by
  rw [same]

/-- **A lookup in a dictionary** passes the entries with other keys. -/
theorem field_cons (key k : String) (v : Value) (entries : List (Value × Value)) :
    field key ((.text k, v) :: entries) = if k = key then some v else field key entries := by
  rw [field, lookup, List.find?_cons, same_text]
  by_cases h : k = key
  · rw [if_pos h, beq_iff_eq.mpr h]
    rfl
  · rw [if_neg h, beq_eq_false_iff_ne.mpr h]
    rfl

end Value

namespace Tree

theorem forall_walk_node {P : Tree → Prop} {k : String} {p : Properties} {c : List Tree} :
    (∀ n ∈ (node k p c).walk, P n) ↔ P (node k p c) ∧ ∀ t ∈ c, ∀ n ∈ t.walk, P n := by
  simp only [walk_eq, preorder, List.forall_mem_cons, preorderAll_eq_flatMap, List.mem_flatMap]
  exact and_congr_right fun _ => ⟨fun h t ht n hn => h n ⟨t, ht, hn⟩,
    fun h n ⟨t, ht, hn⟩ => h t ht n hn⟩

theorem keyed_node {k : String} {p : Properties} {c : List Tree} :
    (node k p c).Keyed ↔ p.Keyed ∧ ∀ t ∈ c, t.Keyed := forall_walk_node

theorem nanFree_node {k : String} {p : Properties} {c : List Tree} :
    (node k p c).NanFree ↔ (∀ e ∈ p, e.2.isNan = false) ∧ ∀ t ∈ c, t.NanFree := forall_walk_node

/-! ## What is written is read back -/

theorem readProperties_map (kind : String) (props : Properties) :
    readProperties kind (props.map fun p => (.text p.1, p.2.toValue)) = .ok props := by
  induction props with
  | nil => rfl
  | cons p rest ih =>
    rw [List.map_cons, readProperties, Scalar.ofValue?_toValue, ih]
    rfl

/-- **The head of a written tree** is read back. -/
theorem readHead_toValue (t : Tree) : readHead t.toValue = .ok (t.kind, t.properties) := by
  obtain ⟨k, p, c⟩ := t
  have hkind : Value.field "node_type" [(.text "node_type", .text k),
      (.text "properties", p.toValue), (.text "children", .list (toValues c))]
      = some (.text k) := by
    rw [Value.field_cons, if_pos rfl]
  have hprops : Value.field "properties" [(.text "node_type", .text k),
      (.text "properties", p.toValue), (.text "children", .list (toValues c))]
      = some (.dict (p.map fun p => (.text p.1, p.2.toValue))) := by
    rw [Value.field_cons, if_neg (by decide), Value.field_cons, if_pos rfl, Properties.toValue,
      Value.record, List.map_map]
    rfl
  rw [toValue, Value.record, readHead]
  simp only [List.map_cons, List.map_nil, hkind, hprops, readProperties_map]
  rfl

theorem mapM_readHead (trees : List Tree) :
    (toValues trees).mapM readHead = .ok (trees.map fun t => (t.kind, t.properties)) := by
  induction trees with
  | nil => rfl
  | cons t rest ih =>
    rw [toValues, List.mapM_cons, readHead_toValue, ih]
    rfl

theorem zipWith_heads (trees : List Tree) :
    List.zipWith (fun (head : String × Properties) c => node head.1 head.2 c)
      (trees.map fun t => (t.kind, t.properties)) (trees.map children) = trees := by
  induction trees with
  | nil => rfl
  | cons t rest ih =>
    rw [List.map_cons, List.map_cons, List.zipWith_cons_cons, ih]
    cases t
    rfl

mutual

theorem readBelow_toValue : ∀ t : Tree, readBelow t.toValue = .ok t.children
  | .node k p c => by
    have hbelow := readAllBelow_toValues c
    rw [toValue, Value.record, readBelow]
    simp only [List.map_cons, List.map_nil, belowEntries, Value.same_text]
    rw [if_neg (by decide), if_neg (by decide), if_pos (by decide), readChildren, mapM_readHead,
      hbelow]
    exact congrArg Except.ok (zipWith_heads c)

/-- **What is below written trees** is read back. -/
theorem readAllBelow_toValues : ∀ trees : List Tree,
    readAllBelow (toValues trees) = .ok (trees.map children)
  | [] => by rw [toValues, readAllBelow, List.map_nil]
  | t :: rest => by
    have hself := readBelow_toValue t
    have hrest := readAllBelow_toValues rest
    rw [toValues, readAllBelow, hrest, List.map_cons]
    change (readBelow t.toValue).bind _ = _
    rw [hself]
    rfl

end

/-- **A written tree is read back as it was.** -/
theorem ofValue_toValue (t : Tree) : ofValue t.toValue = .ok t := by
  rw [ofValue, readHead_toValue]
  change (readBelow t.toValue).bind _ = _
  rw [readBelow_toValue]
  cases t
  rfl

/-! ## The written form -/

mutual

theorem isRecord_toValue : ∀ t : Tree, t.Keyed → t.toValue.IsRecord
  | .node k p c => by
    intro h
    obtain ⟨hp, hc⟩ := keyed_node.mp h
    rw [toValue]
    exact .record k p hp (toValues c) (isRecord_toValues c hc)

theorem isRecord_toValues : ∀ trees : List Tree, (∀ t ∈ trees, t.Keyed) →
    ∀ v ∈ toValues trees, v.IsRecord
  | [] => fun _ _ hv => nomatch hv
  | t :: rest => by
    intro h v hv
    rw [toValues, List.mem_cons] at hv
    obtain ⟨ht, hrest⟩ := List.forall_mem_cons.mp h
    rcases hv with rfl | hv
    · exact isRecord_toValue t ht
    · exact isRecord_toValues rest hrest v hv

end

end Tree

/-- **The records that trees are written as** are those of the written form. -/
theorem Value.isRecord_iff {d : Value} : d.IsRecord ↔ ∃ t : Tree, t.Keyed ∧ t.toValue = d := by
  refine ⟨fun h => ?_, fun ⟨t, ht, hd⟩ => hd ▸ t.isRecord_toValue ht⟩
  induction h with
  | record kind props keyed children _ ih =>
    choose! tree hkeyed htree using ih
    refine ⟨.node kind props (children.map tree),
      Tree.keyed_node.mpr ⟨keyed, fun t ht => ?_⟩, ?_⟩
    · obtain ⟨c, hc, rfl⟩ := List.mem_map.mp ht
      exact hkeyed c hc
    · have hmap : (children.map tree).map Tree.toValue = children := by
        rw [List.map_map]
        exact (List.map_congr_left htree).trans (List.map_id children)
      rw [Tree.toValue, Tree.toValues_eq_map, hmap]

/-! ## Comparing -/

namespace Scalar

variable {shared : Bool} {v w : Scalar}

/-- **Scalars are compared as values are**, as long as the first is no nan. -/
theorem equal_eq_same (hv : v.isNan = false) : v.equal shared w = v.toValue.same w.toValue := by
  cases v <;> cases w <;> simp_all [equal, toValue, Value.same, Value.place?, isNan]

/-- A scalar equals itself where it is shared. -/
theorem equal_self (v : Scalar) : v.equal true v = true := by
  cases v with
  | text s => exact beq_self_eq_true s
  | int i =>
    simp only [equal, toValue, Value.same, Value.place?]
    exact beq_self_eq_true _
  | bool b =>
    simp only [equal, toValue, Value.same, Value.place?]
    exact beq_self_eq_true _
  | real x =>
    rw [equal]
    cases x.place <;> simp [Place.same]

end Scalar

namespace Properties

variable {p q : Properties} {k : String}

theorem toValue_eq (p : Properties) :
    p.toValue = .dict (p.map fun e => (.text e.1, e.2.toValue)) := by
  rw [toValue, Value.record, List.map_map]
  rfl

/-- **In a dictionary without repetitions** an entry is found by its key. -/
theorem any_eq_lookup (hq : q.Keyed) (P : Scalar → Bool) :
    (q.any fun e => k == e.1 && P e.2) = (q.lookup k).any P := by
  induction q with
  | nil => rfl
  | cons e rest ih =>
    obtain ⟨hnot, hrest⟩ := List.nodup_cons.mp hq
    rw [List.any_cons, List.lookup_cons]
    by_cases hk : k = e.1
    · have hothers : (rest.any fun e => k == e.1 && P e.2) = false := by
        rw [List.any_eq_false]
        intro e' he' h
        rw [Bool.and_eq_true, beq_iff_eq] at h
        exact hnot (hk ▸ h.1 ▸ List.mem_map_of_mem he')
      rw [hothers, beq_iff_eq.mpr hk, Bool.true_and, Bool.or_false]
      rfl
    · rw [beq_eq_false_iff_ne.mpr hk, Bool.false_and, Bool.false_or, ih hrest]

theorem lookup_of_mem (hq : q.Keyed) {v : Scalar} (h : (k, v) ∈ q) : q.lookup k = some v := by
  induction q with
  | nil => cases h
  | cons e rest ih =>
    obtain ⟨hnot, hrest⟩ := List.nodup_cons.mp hq
    rw [List.lookup_cons]
    rcases List.mem_cons.mp h with rfl | h
    · rw [beq_self_eq_true]
    · have hk : k ≠ e.1 := fun hk => hnot (hk ▸ List.mem_map_of_mem h)
      rw [beq_eq_false_iff_ne.mpr hk]
      exact ih hrest h

theorem equal_self (hp : p.Keyed) : p.equal true p = true := by
  rw [equal, beq_self_eq_true, Bool.true_and, List.all_eq_true]
  rintro ⟨k, v⟩ he
  dsimp only
  rw [lookup_of_mem hp he]
  exact v.equal_self

theorem entriesWithin_map (p q : Properties) :
    Value.entriesWithin (p.map fun e => (.text e.1, e.2.toValue))
        (q.map fun e => (.text e.1, e.2.toValue))
      = p.all fun e => q.any fun e' => e.1 == e'.1 && e.2.toValue.same e'.2.toValue := by
  induction p with
  | nil => rw [List.map_nil, Value.entriesWithin, List.all_nil]
  | cons e rest ih =>
    rw [List.map_cons, Value.entriesWithin, ih, List.all_cons, List.any_map]
    simp only [Function.comp_def, Value.same_text]

theorem equal_eq_same {shared : Bool} (hp : ∀ e ∈ p, e.2.isNan = false) (hq : q.Keyed) :
    p.equal shared q = p.toValue.same q.toValue := by
  rw [equal, toValue_eq, toValue_eq, Value.same, entriesWithin_map, List.length_map,
    List.length_map]
  refine congrArg _ (Bool.eq_iff_iff.mpr ?_)
  rw [List.all_eq_true, List.all_eq_true]
  refine forall_congr' fun e => forall_congr' fun he => ?_
  obtain ⟨k, v⟩ := e
  dsimp only
  rw [any_eq_lookup hq fun w => v.toValue.same w.toValue]
  simp only [Scalar.equal_eq_same (hp _ he)]

end Properties

namespace Tree

mutual

theorem equal_self : ∀ {t : Tree}, t.Keyed → t.equal true t = true
  | .node k p c => by
    intro h
    obtain ⟨hp, hc⟩ := keyed_node.mp h
    rw [equal, beq_self_eq_true, Properties.equal_self hp, equalAll_self hc]
    rfl

/-- **A tree equals itself**, nans and all. -/
theorem equalAll_self : ∀ {trees : List Tree}, (∀ t ∈ trees, t.Keyed) →
    equalAll true trees trees = true
  | [] => fun _ => by rw [equalAll]
  | t :: rest => by
    intro h
    obtain ⟨ht, hrest⟩ := List.forall_mem_cons.mp h
    rw [equalAll, equal_self ht, equalAll_self hrest]
    rfl

end

mutual

theorem equal_eq_same {shared : Bool} : ∀ {a b : Tree}, a.NanFree → b.Keyed →
    a.equal shared b = a.toValue.same b.toValue
  | .node k p c, .node k' p' c' => by
    intro ha hb
    obtain ⟨hp, hc⟩ := nanFree_node.mp ha
    obtain ⟨hp', hc'⟩ := keyed_node.mp hb
    have hprops : p.equal shared p' = p.toValue.same p'.toValue :=
      Properties.equal_eq_same hp hp'
    have hbelow : equalAll shared c c' = Value.sameItems (toValues c) (toValues c') :=
      equalAll_eq_sameItems hc hc'
    rw [equal, hprops, hbelow, toValue, toValue, Value.record, Value.record, Value.same]
    -- an entry is compared with the one entry that has its key
    simp [Value.entriesWithin, Bool.and_assoc]

/-- **Trees are compared as their records are**, where no property is a nan. -/
theorem equalAll_eq_sameItems {shared : Bool} : ∀ {as bs : List Tree},
    (∀ a ∈ as, a.NanFree) → (∀ b ∈ bs, b.Keyed) →
    equalAll shared as bs = Value.sameItems (toValues as) (toValues bs)
  | [], [] => fun _ _ => by rw [equalAll, toValues, Value.sameItems]
  | [], _ :: _ => fun _ _ => by rw [toValues, toValues, Value.sameItems, equalAll] <;> nofun
  | _ :: _, [] => fun _ _ => by rw [toValues, toValues, Value.sameItems, equalAll] <;> nofun
  | a :: as, b :: bs => by
    intro ha hb
    obtain ⟨ha, has⟩ := List.forall_mem_cons.mp ha
    obtain ⟨hb, hbs⟩ := List.forall_mem_cons.mp hb
    rw [equalAll, toValues, toValues, Value.sameItems, equal_eq_same ha hb,
      equalAll_eq_sameItems has hbs]

end

end Tree

/-- **Trees and records stand for one another**, as the work lists write, read and compare them.
A tree is written in the written form, and read back from it as it was, nans included; a record of
the written form is what the tree read from it is written as, entry by entry; and without nans
trees are equal just if their records are. -/
theorem Tree.roundTrip :
    (∀ t : Tree, t.Keyed → ∃ d f, t.toValueByWorkList = some d ∧ d.IsRecord
        ∧ Tree.ofValueByWorkList d = .ok f ∧ f.toTree? 0 = some t
        ∧ t.equalByWorkList true t = true)
      ∧ (∀ d : Value, d.IsRecord → ∃ f t, Tree.ofValueByWorkList d = .ok f
        ∧ f.toTree? 0 = some t ∧ t.toValueByWorkList = some d)
      ∧ ∀ (shared : Bool) (a b : Tree), a.Keyed → b.Keyed → a.NanFree → b.NanFree →
        ∃ d e, a.toValueByWorkList = some d ∧ b.toValueByWorkList = some e
          ∧ (a.equalByWorkList shared b = true ↔ d.same e = true) := by
  simp only [toValueByWorkList_eq, equalByWorkList_eq]
  refine ⟨fun t ht => ?_, fun d hd => ?_, fun shared a b _ hb ha _ => ?_⟩
  · obtain ⟨f, hf, hread⟩ := ofValueByWorkList_ok (ofValue_toValue t)
    exact ⟨_, f, rfl, isRecord_toValue t ht, hf, hread, equal_self ht⟩
  · obtain ⟨t, -, rfl⟩ := Value.isRecord_iff.mp hd
    obtain ⟨f, hf, hread⟩ := ofValueByWorkList_ok (ofValue_toValue t)
    exact ⟨f, t, hf, hread, rfl⟩
  · exact ⟨_, _, rfl, rfl, by rw [equal_eq_same ha hb]⟩

/-- A block with a count, on itself and on the second of its children. -/
def Tree.counted (count : Scalar) : Tree :=
  .node "Block" [("count", count), ("name", .text "a")]
    [.node "Leaf" [] [], .node "Leaf" [("count", count)] []]

theorem Tree.keyed_counted (count : Scalar) : (counted count).Keyed := by
  simp [counted, keyed_node, Properties.Keyed]

theorem Tree.nanFree_counted {count : Scalar} (h : count.isNan = false) :
    (counted count).NanFree := by
  have htext : (Scalar.text "a").isNan = false := rfl
  simp [counted, nanFree_node, h, htext]

/-- A count that is a nan comes back; one and true are equal counts. -/
theorem Tree.roundTrip_counted :
    (∃ d f, (counted (.real (.nan false))).toValueByWorkList = some d ∧ d.IsRecord
        ∧ Tree.ofValueByWorkList d = .ok f ∧ f.toTree? 0 = some (counted (.real (.nan false)))
        ∧ (counted (.real (.nan false))).equalByWorkList true (counted (.real (.nan false))) = true)
      ∧ (∃ f t, Tree.ofValueByWorkList (counted (.int 1)).toValue = .ok f
        ∧ f.toTree? 0 = some t ∧ t.toValueByWorkList = some (counted (.int 1)).toValue)
      ∧ (counted (.int 1)).equalByWorkList false (counted (.bool true)) = true
      ∧ ∃ d e, (counted (.int 1)).toValueByWorkList = some d
        ∧ (counted (.bool true)).toValueByWorkList = some e ∧ d.same e = true := by
  have hequal : (counted (.int 1)).equalByWorkList false (counted (.bool true)) = true := by
    rw [equalByWorkList_eq]
    decide +kernel
  obtain ⟨d, e, hd, he, hsame⟩ := roundTrip.2.2 false _ _ (keyed_counted (.int 1))
    (keyed_counted (.bool true)) (nanFree_counted rfl) (nanFree_counted rfl)
  exact ⟨roundTrip.1 _ (keyed_counted _),
    roundTrip.2.1 _ (isRecord_toValue _ (keyed_counted _)), hequal,
    ⟨d, e, hd, he, hsame.mp hequal⟩⟩

end SyntaxForest
