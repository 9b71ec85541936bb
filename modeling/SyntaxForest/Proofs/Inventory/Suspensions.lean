import Mathlib.Data.Set.Card
import Mathlib.Order.CompletePartialOrder
import SyntaxForest.Proofs.Inventory.Scopes

/-!
# Suspension points and their scopes

A method's record counts suspension points, and notes idioms, on a walk below the method that
leaves out nested methods, lambdas and local functions. Here they are told by ancestors: what is
counted for a method are the suspension points whose nearest method or callable scope is that
method (`suspensionsAt`). A suspension point is told by what the node is
(`IsSuspensionPoint`): it may be one in several ways and is counted once all the same.
-/

namespace SyntaxForest

/-- Whether a node opens a scope of statements. -/
def Vocabulary.opensBody (v : Vocabulary) (t : Tree) : Bool :=
  v.scopeTypes.contains t.kind || v.methodTypes.contains t.kind

/-- **Suspension points**: awaits, statements that are marked as awaited, and blocking calls
without arguments. -/
inductive IsSuspensionPoint (v : Vocabulary) (t : Tree) : Prop
  | await (kind : t.kind ∈ v.awaitTypes)
  | flagged (kind : t.kind ∈ v.awaitFlagTypes) (flag : t.get? "is_await" = some (.bool true))
  | blocking (member : String) (count : Scalar) (kind : t.kind ∈ v.invocationTypes)
      (calls : t.get? "member_name" = some (.text member)) (blocks : member ∈ v.suspensionMembers)
      (arguments : t.get? "argument_count" = some count) (none : count.equal false (.int 0) = true)

namespace Tree

/-- **The named asynchronous methods**, with their places and in pre-order. -/
def asyncPlaces (v : Vocabulary) (root : Tree) : List (Place × Tree) :=
  root.placed.filter fun x =>
    v.methodTypes.contains x.2.kind && x.2.givenName?.isSome && isAsyncMethod v x.2

/-- **Whether a node stands in the body** of the method at `p`: its nearest scope is that method,
and it opens none itself. -/
def InBody (v : Vocabulary) (root : Tree) (p q : Place) (n : Tree) : Prop :=
  root.at? q = some n ∧ root.nearest? v.opensBody q = some p
    ∧ n.kind ∉ v.scopeTypes ∧ n.kind ∉ v.methodTypes

/-- **The suspension points of the method at a place.** -/
def suspensionsAt (v : Vocabulary) (root : Tree) (p : Place) : Set Place :=
  {q | ∃ n, root.InBody v p q n ∧ IsSuspensionPoint v n}

/-- **Whether a call in the body** of the method at a place has a property. -/
def CallsAt (v : Vocabulary) (root : Tree) (p : Place) (idiom : Tree → Bool) : Prop :=
  ∃ q n, root.InBody v p q n ∧ n.kind ∈ v.invocationTypes ∧ idiom n = true

end Tree

variable {v : Vocabulary} {root t : Tree} {p : Tree.Place}

/-! ## One node -/

theorem any_isTrue_iff {s : Option Scalar} :
    s.any Scalar.isTrue = true ↔ s = some (.bool true) := by
  cases s with
  | none => simp
  | some s => cases s <;> simp [Scalar.isTrue]

theorem text?_eq_some_iff {s : Scalar} {m : String} : s.text? = some m ↔ s = .text m := by
  cases s <;> simp [Scalar.text?]

theorem isAwait_iff : isAwait v t = true ↔ t.kind ∈ v.awaitTypes
    ∨ t.kind ∈ v.awaitFlagTypes ∧ t.get? "is_await" = some (.bool true) := by
  simp [isAwait, any_isTrue_iff]

/-- **The member that is called**, unless the node is a suspension point by itself. -/
theorem calledMember?_eq_some_iff {m : String} : calledMember? v t = some m ↔
    isAwait v t = false ∧ t.kind ∈ v.invocationTypes
      ∧ t.get? "member_name" = some (.text m) := by
  unfold calledMember?
  split
  · next h =>
    simp only [Bool.and_eq_true, Bool.not_eq_true', List.contains_iff_mem] at h
    simp [h, Option.bind_eq_some_iff, text?_eq_some_iff]
  · next h =>
    simp only [Bool.and_eq_true, Bool.not_eq_true', List.contains_iff_mem] at h
    simp only [reduceCtorEq, false_iff]
    exact fun hcall => h ⟨hcall.1, hcall.2.1⟩

/-- **A node is counted just if it is a suspension point.** -/
theorem isSuspension_iff : isSuspension v t = true ↔ IsSuspensionPoint v t := by
  rw [isSuspension, Bool.or_eq_true, isAwait_iff]
  constructor
  · rintro ((hkind | ⟨hkind, hflag⟩) | hcall)
    · exact .await hkind
    · exact .flagged hkind hflag
    · obtain ⟨member, hmember, hblocks⟩ := (Option.any_eq_true ..).mp hcall
      obtain ⟨-, hkind, hname⟩ := calledMember?_eq_some_iff.mp hmember
      rw [Bool.and_eq_true, List.contains_iff_mem] at hblocks
      obtain ⟨count, hcount, hnone⟩ := (Option.any_eq_true ..).mp hblocks.2
      exact .blocking member count hkind hname hblocks.1 hcount hnone
  · rintro (hkind | ⟨hkind, hflag⟩ | ⟨member, count, hkind, hname, hblocks, hcount, hnone⟩)
    · exact .inl (.inl hkind)
    · exact .inl (.inr ⟨hkind, hflag⟩)
    · -- A call that is a suspension point by itself is not looked at as a call.
      by_cases hawait : isAwait v t = true
      · exact .inl (isAwait_iff.mp hawait)
      · rw [Bool.not_eq_true] at hawait
        have hcall := calledMember?_eq_some_iff.mpr ⟨hawait, hkind, hname⟩
        exact .inr (by simp [hcall, hblocks, hcount, hnone])

/-- Every idiom is seen in what a node calls. -/
theorem mem_invocationTypes {m : String} (h : calledMember? v t = some m) :
    t.kind ∈ v.invocationTypes :=
  (calledMember?_eq_some_iff.mp h).2.1

theorem mem_invocationTypes_of_isContextFree (h : isContextFree v t = true) :
    t.kind ∈ v.invocationTypes := by
  obtain ⟨m, hm, -⟩ := (Option.any_eq_true ..).mp h
  exact mem_invocationTypes hm

theorem calledMember?_of_joinedMember? {m : String} (h : joinedMember? v t = some m) :
    calledMember? v t = some m := by
  unfold joinedMember? at h
  split at h
  · split at h
    · exact h
    · cases h
  · cases h

theorem mem_invocationTypes_of_isWhenAll (h : isWhenAll v t = true) :
    t.kind ∈ v.invocationTypes := by
  obtain ⟨m, hm, -⟩ := (Option.any_eq_true ..).mp h
  exact mem_invocationTypes (calledMember?_of_joinedMember? hm)

theorem mem_invocationTypes_of_isWhenAny (h : isWhenAny v t = true) :
    t.kind ∈ v.invocationTypes := by
  obtain ⟨m, hm, -⟩ := (Option.any_eq_true ..).mp h
  exact mem_invocationTypes (calledMember?_of_joinedMember? hm)

/-! ## The body of a method -/

theorem Vocabulary.opensBody_iff : v.opensBody t = false ↔
    t.kind ∉ v.scopeTypes ∧ t.kind ∉ v.methodTypes := by
  simp [opensBody]

/-- **The nodes of a body**, with their places and in pre-order. -/
def Tree.bodyAt (v : Vocabulary) (root : Tree) (p : Place) : List (Place × Tree) :=
  (root.own v.opensBody p).filter fun x => !v.opensBody x.2

theorem Tree.mem_bodyAt {x : Place × Tree} :
    x ∈ root.bodyAt v p ↔ root.InBody v p x.1 x.2 := by
  rw [bodyAt, own, List.mem_filter, List.mem_filter, decide_eq_true_iff, Bool.not_eq_true',
    Vocabulary.opensBody_iff, and_assoc]
  exact and_congr_left fun _ => mem_placed

theorem Tree.nodup_bodyAt (v : Vocabulary) (root : Tree) (p : Place) :
    ((root.bodyAt v p).map Prod.fst).Nodup :=
  root.nodup_placed.sublist ((List.filter_sublist.trans List.filter_sublist).map _)

/-- **The body that is walked through** is that of the method. -/
theorem Tree.map_snd_bodyAt (hp : root.at? p = some t) (hmethod : t.kind ∈ v.methodTypes) :
    (root.bodyAt v p).map Prod.snd = methodBody v t := by
  have hopen : v.opensBody t = true := by simp [Vocabulary.opensBody, hmethod]
  rw [methodBody, walkWithout_eq]
  change _ = (walkUpTo v.opensBody t.children).filter fun n => !v.opensBody n
  rw [← map_snd_own hp hopen, List.filter_map]
  rfl

/-- Counting the nodes of a body is counting their places. -/
theorem Tree.countP_methodBody (hp : root.at? p = some t) (hmethod : t.kind ∈ v.methodTypes)
    (counts : Tree → Bool) : (methodBody v t).countP counts
      = {q | ∃ n, root.InBody v p q n ∧ counts n = true}.ncard := by
  have hcounted : {q | ∃ n, root.InBody v p q n ∧ counts n = true}
      = ↑(((root.bodyAt v p).filter fun x => counts x.2).map Prod.fst).toFinset := by
    ext q
    simp [mem_bodyAt]
  rw [hcounted, Set.ncard_coe_finset, List.toFinset_card_of_nodup, List.length_map,
    ← Tree.map_snd_bodyAt hp hmethod, List.countP_map, List.countP_eq_length_filter]
  · rfl
  · exact (root.nodup_bodyAt v p).sublist (List.filter_sublist.map _)

theorem Tree.any_methodBody_iff (hp : root.at? p = some t) (hmethod : t.kind ∈ v.methodTypes)
    {idiom : Tree → Bool} (hcall : ∀ n, idiom n = true → n.kind ∈ v.invocationTypes) :
    (methodBody v t).any idiom = true ↔ root.CallsAt v p idiom := by
  rw [← Tree.map_snd_bodyAt hp hmethod, List.any_map, List.any_eq_true]
  constructor
  · rintro ⟨x, hx, hidiom⟩
    exact ⟨x.1, x.2, mem_bodyAt.mp hx, hcall x.2 hidiom, hidiom⟩
  · rintro ⟨q, n, hbody, -, hidiom⟩
    exact ⟨(q, n), mem_bodyAt.mpr hbody, hidiom⟩

theorem Tree.disjoint_suspensionsAt {q : Place} (h : p ≠ q) :
    Disjoint (root.suspensionsAt v p) (root.suspensionsAt v q) := by
  refine Set.disjoint_left.mpr fun r hp hq => h ?_
  obtain ⟨n, ⟨-, hnear, -⟩, -⟩ := hp
  obtain ⟨m, ⟨-, hnear', -⟩, -⟩ := hq
  exact Option.some.inj (hnear.symm.trans hnear')

/-- **What a record says of the method at a place.** -/
structure AsyncMethod.Describes (v : Vocabulary) (filePath : String) (root : Tree)
    (x : Tree.Place × Tree) (r : AsyncMethod) : Prop where
  methodName : x.2.name? = some r.methodName
  filePath : r.filePath = filePath
  line : r.line = x.2.line
  returnType : r.returnType = ((x.2.get? "return_type").map fun s => s.toValue.display).getD ""
  awaitCount : r.awaitCount = (root.suspensionsAt v x.1).ncard
  hasConfigureAwait : r.hasConfigureAwait = true ↔ root.CallsAt v x.1 (isContextFree v)
  hasWhenAll : r.hasWhenAll = true ↔ root.CallsAt v x.1 (isWhenAll v)
  hasWhenAny : r.hasWhenAny = true ↔ root.CallsAt v x.1 (isWhenAny v)

theorem Tree.mem_asyncPlaces {x : Place × Tree} : x ∈ root.asyncPlaces v ↔
    root.at? x.1 = some x.2 ∧ x.2.kind ∈ v.methodTypes ∧ x.2.givenName?.isSome = true
      ∧ isAsyncMethod v x.2 = true := by
  rw [asyncPlaces, List.mem_filter, Bool.and_eq_true, Bool.and_eq_true, List.contains_iff_mem,
    and_assoc]
  exact and_congr_left fun _ => mem_placed

/-- **A method's record describes it.** -/
theorem AsyncMethod.describes_ofTree (filePath : String) {x : Tree.Place × Tree}
    (h : x ∈ root.asyncPlaces v) :
    Describes v filePath root x (ofTree v filePath x.2) := by
  obtain ⟨hat, hmethod, hname, -⟩ := Tree.mem_asyncPlaces.mp h
  refine ⟨?_, rfl, rfl, rfl, ?_, ?_, ?_, ?_⟩
  · obtain ⟨name, hgiven⟩ := Option.isSome_iff_exists.mp hname
    simp [ofTree, (Option.filter_eq_some_iff.mp hgiven).1]
  · have hcount := Tree.countP_methodBody hat hmethod (isSuspension v)
    simp only [isSuspension_iff] at hcount
    exact congrArg _ hcount
  · exact Tree.any_methodBody_iff hat hmethod fun _ => mem_invocationTypes_of_isContextFree
  · exact Tree.any_methodBody_iff hat hmethod fun _ => mem_invocationTypes_of_isWhenAll
  · exact Tree.any_methodBody_iff hat hmethod fun _ => mem_invocationTypes_of_isWhenAny

/-- **Suspension points belong to their nearest scope.** There is one record for each named
asynchronous method, in pre-order. It counts the suspension points whose nearest method or
callable scope is the method, each once, and its idioms are those of the calls of which the same
is true. No suspension point is counted in two records. -/
theorem suspensions_nearest (v : Vocabulary) (filePath : String) (root : Tree) :
    List.Forall₂ (AsyncMethod.Describes v filePath root) (root.asyncPlaces v)
        (asyncMethods v filePath root)
      ∧ (root.asyncPlaces v).Pairwise fun a b =>
        Disjoint (root.suspensionsAt v a.1) (root.suspensionsAt v b.1) := by
  have hrecords : asyncMethods v filePath root
      = (root.asyncPlaces v).map fun x => AsyncMethod.ofTree v filePath x.2 := by
    rw [asyncMethods, ← Tree.map_snd_placed, List.filter_map, List.map_map]
    rfl
  refine ⟨?_, ?_⟩
  · rw [hrecords, List.forall₂_map_right_iff, List.forall₂_same]
    exact fun x hx => AsyncMethod.describes_ofTree filePath hx
  · have hplaces : (root.asyncPlaces v).Pairwise fun a b => a.1 ≠ b.1 :=
      (List.pairwise_map.mp root.nodup_placed).filter _
    exact hplaces.imp fun hne => Tree.disjoint_suspensionsAt hne

end SyntaxForest
