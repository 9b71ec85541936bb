import Mathlib.Logic.Function.Basic
import SyntaxForest.Forest

/-!
# Links of a forest

A forest keeps the children of each node and the owner of each node, and an operation usually
changes both. What each operation does to the two is said here by equations between functions
of the nodes, so that nothing below unfolds an operation.

Two operations change the one and not the other. A node that is refused while it is made may
own some of its children already, and a child whose place is given by an impossible index is
taken, but put nowhere.
-/

namespace SyntaxForest.Forest

variable {f g : Forest} {n id owner child : NodeId} {kids : List NodeId}

/-! ## Links -/

@[simp] theorem size_modify {change : Cell → Cell} :
    (f.modify id change).cells.size = f.cells.size :=
  Array.size_modify

theorem children_modify {change : Cell → Cell} (h : ∀ c, (change c).children = c.children) :
    (f.modify id change).children = f.children := by
  funext n
  simp only [Forest.children, modify, Array.getElem?_modify]
  split
  · rw [Option.map_map]
    exact congrArg (fun g => (Option.map g _).getD _) (funext h)
  · rfl

theorem parent?_modify {change : Cell → Cell} (h : ∀ c, (change c).parent = c.parent) :
    (f.modify id change).parent? = f.parent? := by
  funext n
  simp only [parent?, modify, Array.getElem?_modify]
  split
  · rw [Option.bind_map]
    exact congrArg (Option.bind _) (funext h)
  · rfl

theorem parent?_setParent (h : id < f.cells.size) (x : Option NodeId) :
    (f.modify id fun c => { c with parent := x }).parent? = Function.update f.parent? id x := by
  funext n
  simp only [parent?, modify, Array.getElem?_modify, Function.update_apply]
  split
  · next hid =>
    subst hid
    rw [Array.getElem?_eq_getElem h, if_pos rfl]
    rfl
  · next hid => rw [if_neg (Ne.symm hid)]

theorem children_setChildren (h : id < f.cells.size) (change : List NodeId → List NodeId) :
    (f.modify id fun c => { c with children := change c.children }).children
      = Function.update f.children id (change (f.children id)) := by
  funext n
  simp only [Forest.children, modify, Array.getElem?_modify, Function.update_apply]
  split
  · next hid =>
    subst hid
    rw [Array.getElem?_eq_getElem h, if_pos rfl]
    rfl
  · next hid => rw [if_neg (Ne.symm hid)]

theorem children_push (c : Cell) :
    children ⟨f.cells.push c⟩ = Function.update f.children f.cells.size c.children := by
  funext n
  simp only [Forest.children, Array.getElem?_push, Function.update_apply]
  split <;> rfl

/-- A node that is not in the forest has no owner. -/
theorem parent?_size (f : Forest) : f.parent? f.cells.size = none := by
  rw [parent?, Array.getElem?_size]
  rfl

theorem parent?_push {c : Cell} (h : c.parent = none) :
    parent? ⟨f.cells.push c⟩ = f.parent? := by
  funext n
  simp only [parent?, Array.getElem?_push]
  split
  · next hn =>
    subst hn
    exact h.trans f.parent?_size.symm
  · rfl

/-! ## Taking children -/

/-- **Whether a node may be taken**: it has no owner, or the one that takes it. -/
def MayTake (f : Forest) (owner child : NodeId) : Prop :=
  f.parent? child = none ∨ f.parent? child = some owner

theorem adopt_of_none (h : f.parent? child = none) :
    f.adopt owner child = .ok (f.modify child fun c => { c with parent := some owner }) := by
  rw [adopt, h]

theorem adopt_of_own (h : f.parent? child = some owner) : f.adopt owner child = .ok f := by
  rw [adopt, h]
  exact if_pos rfl

/-- **A node that another one owns** is refused. -/
theorem adopt_of_other (h : ¬f.MayTake owner child) :
    ∃ refusal, f.adopt owner child = .error refusal := by
  obtain ⟨hnone, hown⟩ := not_or.mp h
  obtain ⟨p, hp⟩ := Option.ne_none_iff_exists'.mp hnone
  refine ⟨.owned (f.kind child) (f.kind p), ?_⟩
  rw [adopt, hp]
  exact if_neg fun heq : p = owner => hown (heq ▸ hp)

/-- A node is refused only if another one owns it. -/
theorem not_mayTake {refusal : Refusal} (h : f.adopt owner child = .error refusal) :
    ¬f.MayTake owner child := by
  rintro (hnone | hown)
  · simp [adopt_of_none hnone] at h
  · simp [adopt_of_own hown] at h

theorem adopt_ok (hchild : child < f.cells.size) (h : f.adopt owner child = .ok g) :
    f.MayTake owner child ∧ g.cells.size = f.cells.size ∧ g.children = f.children
      ∧ g.parent? = Function.update f.parent? child (some owner) := by
  by_cases hmay : f.MayTake owner child
  · refine ⟨hmay, ?_⟩
    rcases hmay with hnone | hown
    · rw [adopt_of_none hnone, Except.ok.injEq] at h
      subst h
      exact ⟨size_modify, children_modify fun _ => rfl, parent?_setParent hchild _⟩
    · rw [adopt_of_own hown, Except.ok.injEq] at h
      subst h
      exact ⟨rfl, rfl, by rw [← hown, Function.update_eq_self]⟩
  · obtain ⟨refusal, hrefused⟩ := adopt_of_other hmay
    rw [hrefused] at h
    cases h

/-- **Taking several nodes**: the children of no node change, and those that are taken had no
owner. -/
theorem adoptAll_links (owner : NodeId) (kids : List NodeId) (f : Forest)
    (h : ∀ c ∈ kids, c < f.cells.size) :
    (f.adoptAll owner kids).1.cells.size = f.cells.size
      ∧ (f.adoptAll owner kids).1.children = f.children
      ∧ ∀ n, (f.adoptAll owner kids).1.parent? n = f.parent? n
        ∨ f.parent? n = none ∧ (f.adoptAll owner kids).1.parent? n = some owner := by
  induction kids generalizing f with
  | nil => exact ⟨rfl, rfl, fun _ => .inl rfl⟩
  | cons child rest ih =>
    obtain ⟨hchild, hrest⟩ := List.forall_mem_cons.mp h
    rw [adoptAll]
    cases hadopt : f.adopt owner child with
    | error refusal => exact ⟨rfl, rfl, fun _ => .inl rfl⟩
    | ok g =>
      obtain ⟨hmay, hsize, hchildren, hparent⟩ := adopt_ok hchild hadopt
      obtain ⟨hsize', hchildren', hparent'⟩ := ih g (hsize ▸ hrest)
      refine ⟨hsize'.trans hsize, hchildren'.trans hchildren, fun n => ?_⟩
      have hn := hparent' n
      rw [hparent, Function.update_apply] at hn
      by_cases heq : n = child
      · subst heq
        rw [if_pos rfl] at hn
        have htaken := hn.resolve_right fun h => Option.some_ne_none _ h.1
        rcases hmay with hnone | hown
        · exact .inr ⟨hnone, htaken⟩
        · exact .inl (htaken.trans hown.symm)
      · rwa [if_neg heq] at hn

/-- If none is refused, all of them are owned, and none had another owner. -/
theorem adoptAll_none (owner : NodeId) (kids : List NodeId) (f : Forest)
    (h : ∀ c ∈ kids, c < f.cells.size) (hnone : (f.adoptAll owner kids).2 = none) :
    (∀ c ∈ kids, f.MayTake owner c) ∧ ∀ n, (f.adoptAll owner kids).1.parent? n
      = if n ∈ kids then some owner else f.parent? n := by
  induction kids generalizing f with
  | nil => exact ⟨fun c hc => absurd hc List.not_mem_nil, fun _ => rfl⟩
  | cons child rest ih =>
    obtain ⟨hchild, hrest⟩ := List.forall_mem_cons.mp h
    rw [adoptAll] at hnone ⊢
    cases hadopt : f.adopt owner child with
    | error refusal =>
      rw [hadopt] at hnone
      cases hnone
    | ok g =>
      rw [hadopt] at hnone
      obtain ⟨hmay, hsize, -, hparent⟩ := adopt_ok hchild hadopt
      obtain ⟨hmays, hparents⟩ := ih g (hsize ▸ hrest) hnone
      refine ⟨List.forall_mem_cons.mpr ⟨hmay, fun c hc => ?_⟩, fun n => ?_⟩
      · have hc := hmays c hc
        rw [MayTake, hparent, Function.update_apply] at hc
        split at hc
        · next heq => exact heq ▸ hmay
        · exact hc
      · rw [hparents, hparent, Function.update_apply]
        by_cases heq : n = child
        · simp [heq]
        · simp [heq]

/-! ## What the operations do -/

theorem not_mayTake_of_add {refusal : Refusal} (h : f.add owner child = .error refusal) :
    ¬f.MayTake owner child := by
  cases hadopt : f.adopt owner child with
  | error refusal => exact not_mayTake hadopt
  | ok taken =>
    rw [add, hadopt] at h
    cases h

/-- **Appending** puts the child last and makes the node its owner. -/
theorem add_ok (howner : owner < f.cells.size) (hchild : child < f.cells.size)
    (h : f.add owner child = .ok g) :
    f.MayTake owner child ∧ g.cells.size = f.cells.size
      ∧ g.children = Function.update f.children owner (f.children owner ++ [child])
      ∧ g.parent? = Function.update f.parent? child (some owner) := by
  cases hadopt : f.adopt owner child with
  | error refusal =>
    rw [add, hadopt] at h
    cases h
  | ok taken =>
    obtain ⟨hmay, hsize, hchildren, hparent⟩ := adopt_ok hchild hadopt
    rw [add, hadopt] at h
    change Except.ok _ = _ at h
    rw [Except.ok.injEq] at h
    subst h
    have hkept : (taken.modify owner fun c => { c with children := c.children ++ [child] }).parent?
        = taken.parent? := parent?_modify fun _ => rfl
    refine ⟨hmay, size_modify.trans hsize, ?_, hkept.trans hparent⟩
    rw [children_setChildren (hsize ▸ howner) (· ++ [child]), hchildren]

theorem placeOf_le (index : Int) (length : Nat) : placeOf index length ≤ length := by
  unfold placeOf
  split <;> omega

/-- **Putting a child at a place** takes it first. If the index is none, that is all. -/
theorem insert_ok (index : Int) {taken : Forest} (hchild : child < f.cells.size)
    (h : f.adopt owner child = .ok taken) (howner : owner < f.cells.size) :
    (f.insert owner index child).1.cells.size = f.cells.size
      ∧ (f.insert owner index child).1.parent? = Function.update f.parent? child (some owner)
      ∧ (isIndex index = true → (f.insert owner index child).2 = none
        ∧ (f.insert owner index child).1.children = Function.update f.children owner
          ((f.children owner).insertIdx (placeOf index (f.children owner).length) child))
      ∧ (isIndex index = false → (f.insert owner index child).2 = some (.index index)
        ∧ (f.insert owner index child).1 = taken) := by
  obtain ⟨-, hsize, hchildren, hparent⟩ := adopt_ok hchild h
  rw [insert, h]
  dsimp only
  split
  · next hindex =>
    have hkept : (taken.modify owner fun c => { c with
        children := c.children.insertIdx (placeOf index c.children.length) child }).parent?
        = taken.parent? := parent?_modify fun _ => rfl
    refine ⟨size_modify.trans hsize, hkept.trans hparent, fun _ => ⟨rfl, ?_⟩, fun hnot => ?_⟩
    · rw [children_setChildren (hsize ▸ howner)
        fun l => l.insertIdx (placeOf index l.length) child, hchildren]
    · rw [hindex] at hnot
      cases hnot
  · next hindex =>
    exact ⟨hsize, hparent, fun hyes => absurd hyes hindex, fun _ => ⟨rfl, rfl⟩⟩

/-- Takes the owner from each of several nodes. -/
theorem foldl_release (kids : List NodeId) (f : Forest) (h : ∀ c ∈ kids, c < f.cells.size) :
    let released := kids.foldl (fun f child => f.modify child fun c => { c with parent := none }) f
    released.cells.size = f.cells.size ∧ released.children = f.children
      ∧ ∀ n, released.parent? n = if n ∈ kids then none else f.parent? n := by
  induction kids generalizing f with
  | nil => exact ⟨rfl, rfl, fun _ => rfl⟩
  | cons c rest ih =>
    obtain ⟨hc, hrest⟩ := List.forall_mem_cons.mp h
    obtain ⟨hsize, hchildren, hparent⟩ := ih (f.modify c fun c => { c with parent := none })
      (by rwa [size_modify])
    refine ⟨hsize.trans size_modify, hchildren.trans (children_modify fun _ => rfl), fun n => ?_⟩
    rw [List.foldl_cons, hparent, parent?_setParent hc, Function.update_apply]
    by_cases heq : n = c <;> simp [heq]

/-- **Letting go** empties the list of the node and makes its former children nobody's. -/
theorem detach_links (howner : owner < f.cells.size)
    (hkids : ∀ c ∈ f.children owner, c < f.cells.size) :
    (f.detach owner).1.cells.size = f.cells.size
      ∧ (f.detach owner).1.children = Function.update f.children owner []
      ∧ ∀ n, (f.detach owner).1.parent? n
        = if n ∈ f.children owner then none else f.parent? n := by
  obtain ⟨hsize, hchildren, hparent⟩ := foldl_release (f.children owner)
    (f.modify owner fun c => { c with children := [] }) (by rwa [size_modify])
  have hkept : (f.modify owner fun c => { c with children := [] }).parent? = f.parent? :=
    parent?_modify fun _ => rfl
  rw [hkept] at hparent
  exact ⟨hsize.trans size_modify, hchildren.trans (children_setChildren howner fun _ => []),
    hparent⟩

/-- **Setting a property** leaves the links as they are. -/
theorem set_links {key : String} {value : Value} (h : f.set id key value = .ok g) :
    g.cells.size = f.cells.size ∧ g.children = f.children ∧ g.parent? = f.parent? := by
  cases hvalue : Scalar.ofValue? value with
  | none =>
    cases value with
    | null =>
      rw [set, Except.ok.injEq] at h
      subst h
      exact ⟨rfl, rfl, rfl⟩
    | _ => simp [set, hvalue] at h
  | some s =>
    have hmodify : g = f.modify id fun c => { c with properties := c.properties.set key s } := by
      cases value <;> simp_all [set, Scalar.ofValue?]
    subst hmodify
    exact ⟨size_modify, children_modify fun _ => rfl, parent?_modify fun _ => rfl⟩

/-- **What comes of making a node** with children. If one of them is refused, those before it
stay with the node, which is not handed out. -/
inductive Made (f : Forest) (kids : List NodeId) : Forest × Except Refusal NodeId → Prop
  | fault (refusal : Refusal) : Made f kids (f, .error refusal)
  | refused (g : Forest) (refusal : Refusal)
      (size : g.cells.size = f.cells.size + 1)
      (children : g.children = Function.update f.children f.cells.size kids)
      (parent : ∀ n, g.parent? n = f.parent? n
        ∨ f.parent? n = none ∧ g.parent? n = some f.cells.size) :
      Made f kids (g, .error refusal)
  | made (g : Forest)
      (unowned : ∀ c ∈ kids, f.parent? c = none)
      (size : g.cells.size = f.cells.size + 1)
      (children : g.children = Function.update f.children f.cells.size kids)
      (parent : ∀ n, g.parent? n = if n ∈ kids then some f.cells.size else f.parent? n) :
      Made f kids (g, .ok f.cells.size)

theorem create_made (kind : String) (props : List (Value × Value))
    (hkids : ∀ c ∈ kids, c < f.cells.size)
    (hvalid : ∀ c ∈ kids, f.parent? c ≠ some f.cells.size) :
    Made f kids (f.create kind props kids) := by
  rw [create]
  cases Tree.readProperties kind props with
  | error fault => exact .fault _
  | ok props =>
    dsimp only
    have hsizes : (f.cells.push ⟨kind, props, kids, none⟩).size = f.cells.size + 1 :=
      Array.size_push ..
    have hkidsOf := children_push (f := f) ⟨kind, props, kids, none⟩
    have hownerOf := parent?_push (f := f) (c := ⟨kind, props, kids, none⟩) rfl
    have hlt : ∀ c ∈ kids, c < (f.cells.push ⟨kind, props, kids, none⟩).size :=
      fun c hc => Nat.lt_trans (hkids c hc) (hsizes ▸ Nat.lt_succ_self _)
    obtain ⟨hsize, hchildren, hparent⟩ :=
      adoptAll_links f.cells.size kids ⟨f.cells.push ⟨kind, props, kids, none⟩⟩ hlt
    have hnone := adoptAll_none f.cells.size kids ⟨f.cells.push ⟨kind, props, kids, none⟩⟩ hlt
    generalize adoptAll ⟨f.cells.push ⟨kind, props, kids, none⟩⟩ f.cells.size kids = result at *
    obtain ⟨g, refused⟩ := result
    rw [hkidsOf] at hchildren
    rw [hownerOf] at hparent
    cases refused with
    | some refusal => exact .refused g refusal (hsize.trans hsizes) hchildren hparent
    | none =>
      obtain ⟨hmay, howned⟩ := hnone rfl
      rw [hownerOf] at howned
      refine .made g (fun c hc => ?_) (hsize.trans hsizes) hchildren howned
      have hc' := hmay c hc
      rw [MayTake, hownerOf] at hc'
      exact hc'.resolve_right (hvalid c hc)

end SyntaxForest.Forest
