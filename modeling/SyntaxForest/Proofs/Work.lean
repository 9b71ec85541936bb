import SyntaxForest.Proofs.Correspondence

/-!
# Work that may fail

Most of what the program does either comes to a value or fails with a fault. Whatever is put
together from such work comes to values of its parts, and fails with their faults: `FailsWith`
says which faults there may be, and goes along the ways in which work is put together. A fold
keeps what its steps keep (`foldlM_invariant`), and fails where the first of its steps does
(`foldlM_eq_error_iff`).
-/

namespace SyntaxForest

variable {ε ε' α β : Type} {x : Except ε α}

/-! ## What work comes to -/

theorem exists_of_map_eq_ok {make : α → β} {b : β} (h : x.map make = .ok b) :
    ∃ a, x = .ok a ∧ b = make a := by
  cases x with
  | error fault => cases h
  | ok a => exact ⟨a, rfl, (Except.ok.inj h).symm⟩

/-- **Work in two steps** that comes to a value takes both of them. -/
theorem exists_of_bind_eq_ok {g : α → Except ε β} {b : β} (h : x >>= g = .ok b) :
    ∃ a, x = .ok a ∧ g a = .ok b := by
  cases x with
  | error fault => cases h
  | ok a => exact ⟨a, rfl, h⟩

/-- A last step that always comes to a value does not fail. -/
theorem bind_ok_eq_error_iff {make : α → β} {fault : ε} :
    (x >>= fun a => .ok (make a)) = .error fault ↔ x = .error fault := by
  cases x with
  | error _ =>
    exact ⟨fun h => congrArg _ (Except.error.inj h), fun h => congrArg _ (Except.error.inj h)⟩
  | ok _ => exact iff_of_false nofun nofun

/-- **Work in two steps** that fails does so in the first of them or in the second. -/
theorem bind_eq_error_iff {g : α → Except ε β} {fault : ε} : x >>= g = .error fault ↔
    x = .error fault ∨ ∃ a, x = .ok a ∧ g a = .error fault := by
  cases x with
  | error _ =>
    refine ⟨fun h => .inl (congrArg _ (Except.error.inj h)), ?_⟩
    rintro (h | ⟨a, h, -⟩)
    · exact congrArg _ (Except.error.inj h)
    · cases h
  | ok a =>
    refine ⟨fun h => .inr ⟨a, rfl, h⟩, ?_⟩
    rintro (h | ⟨b, hb, h⟩)
    · cases h
    · exact Except.ok.inj hb ▸ h

/-- **Work on a list** comes to values if the work on each item does. -/
theorem mapM_eq_ok_iff {g : α → Except ε β} {l : List α} {results : List β} :
    l.mapM g = .ok results ↔ List.Forall₂ (fun a b => g a = .ok b) l results := by
  induction l generalizing results with
  | nil =>
    rw [List.mapM_nil, List.forall₂_nil_left_iff]
    exact ⟨fun h => (Except.ok.inj h).symm, fun h => h ▸ rfl⟩
  | cons a l ih =>
    rw [List.mapM_cons, List.forall₂_cons_left_iff]
    constructor
    · intro h
      obtain ⟨b, hb, h⟩ := exists_of_bind_eq_ok h
      obtain ⟨more, hmore, h⟩ := exists_of_bind_eq_ok h
      exact ⟨b, more, hb, ih.mp hmore, (Except.ok.inj h).symm⟩
    · rintro ⟨b, more, hb, hmore, rfl⟩
      rw [hb, ih.mpr hmore]
      rfl

/-- **Work on a list** fails in a first part of it or in the rest. -/
theorem mapM_append_eq_error_iff {g : α → Except ε β} {l l' : List α} {fault : ε} :
    (l ++ l').mapM g = .error fault ↔
      l.mapM g = .error fault ∨ ∃ results, l.mapM g = .ok results ∧ l'.mapM g = .error fault := by
  rw [List.mapM_append, bind_eq_error_iff]
  exact or_congr_right (exists_congr fun _ => and_congr_right fun _ => bind_ok_eq_error_iff)

theorem mapM_cons_eq_error_iff {g : α → Except ε β} {a : α} {l : List α} {fault : ε} :
    (a :: l).mapM g = .error fault ↔
      g a = .error fault ∨ ∃ b, g a = .ok b ∧ l.mapM g = .error fault := by
  rw [List.mapM_cons, bind_eq_error_iff]
  exact or_congr_right (exists_congr fun _ => and_congr_right fun _ => bind_ok_eq_error_iff)

theorem mem_of_mapM_eq_ok {g : α → Except ε β} {l : List α} {results : List β}
    (h : l.mapM g = .ok results) {b : β} (hb : b ∈ results) : ∃ a ∈ l, g a = .ok b :=
  exists_of_mem_right (mapM_eq_ok_iff.mp h) hb

/-- **A fold keeps** what its steps keep. -/
theorem foldlM_invariant {step : β → α → Except ε β} {P : β → Prop} {l : List α}
    (hstep : ∀ a ∈ l, ∀ b b', P b → step b a = .ok b' → P b') {b b' : β} (hb : P b)
    (h : l.foldlM step b = .ok b') : P b' := by
  induction l generalizing b with
  | nil => exact Except.ok.inj h ▸ hb
  | cons a rest ih =>
    rw [List.forall_mem_cons] at hstep
    rw [List.foldlM_cons] at h
    obtain ⟨next, ha, h⟩ := exists_of_bind_eq_ok h
    exact ih hstep.2 (hstep.1 b next hb ha) h

/-- **A fold fails** where the first of its steps does. -/
theorem foldlM_eq_error_iff {step : β → α → Except ε β} {l : List α} {b : β} {fault : ε} :
    l.foldlM step b = .error fault ↔ ∃ before a after b', l = before ++ a :: after
      ∧ before.foldlM step b = .ok b' ∧ step b' a = .error fault := by
  induction l generalizing b with
  | nil =>
    refine iff_of_false (fun h => nomatch h) ?_
    rintro ⟨before, a, after, _, hl, -⟩
    cases before <;> cases hl
  | cons a rest ih =>
    rw [List.foldlM_cons, bind_eq_error_iff]
    constructor
    · rintro (ha | ⟨next, ha, h⟩)
      · exact ⟨[], a, rest, b, rfl, rfl, ha⟩
      · obtain ⟨before, a', after, b', rfl, hbefore, hfault⟩ := ih.mp h
        refine ⟨a :: before, a', after, b', rfl, ?_, hfault⟩
        rw [List.foldlM_cons, ha]
        exact hbefore
    · rintro ⟨before, a', after, b', hl, hbefore, hfault⟩
      cases before with
      | nil =>
        obtain rfl := Except.ok.inj hbefore
        obtain ⟨rfl, rfl⟩ := List.cons.inj hl
        exact .inl hfault
      | cons first before =>
        obtain ⟨rfl, rfl⟩ := List.cons.inj hl
        rw [List.foldlM_cons] at hbefore
        obtain ⟨next, ha, hbefore⟩ := exists_of_bind_eq_ok hbefore
        exact .inr ⟨next, ha, ih.mpr ⟨before, a', after, b', rfl, hbefore, hfault⟩⟩

/-! ## What work fails with -/

/-- The fault of work that fails. -/
def fault? {ε α : Type} : Except ε α → Option ε
  | .ok _ => none
  | .error fault => some fault

theorem fault?_eq_some_iff {r : Except ε α} {fault : ε} :
    fault? r = some fault ↔ r = .error fault := by
  cases r with
  | ok _ => exact ⟨fun h => (nomatch h), fun h => (nomatch h)⟩
  | error _ => exact ⟨fun h => congrArg _ (Option.some.inj h), fun h => congrArg _ (Except.error.inj h)⟩

theorem fault?_map (g : α → β) (r : Except ε α) : fault? (r.map g) = fault? r := by
  cases r <;> rfl

theorem fault?_mapError (g : ε → ε') (r : Except ε α) :
    fault? (r.mapError g) = (fault? r).map g := by
  cases r <;> rfl

theorem fault?_bind (r : Except ε α) (f : α → Except ε β) {o : Option ε}
    (h : ∀ a, fault? (f a) = o) : fault? (r >>= f) = (fault? r).or o := by
  cases r with
  | ok a => exact h a
  | error _ => rfl

/-- Of many pieces of work the first that fails tells the fault. -/
theorem fault?_foldlM {step : β → α → Except ε β} {cause : α → Option ε}
    (h : ∀ b a, fault? (step b a) = cause a) (l : List α) (b : β) :
    fault? (l.foldlM step b) = l.findSome? cause := by
  induction l generalizing b with
  | nil => rfl
  | cons a rest ih =>
    rw [List.foldlM_cons, fault?_bind _ _ (fun b => ih b), h, List.findSome?_cons]
    cases cause a <;> rfl

theorem fault?_mapM (f : α → Except ε β) (l : List α) :
    fault? (l.mapM f) = l.findSome? fun a => fault? (f a) := by
  induction l with
  | nil => rfl
  | cons a rest ih =>
    rw [List.mapM_cons, fault?_bind _ _ (o := fault? (rest.mapM f)) fun b => ?_, ih,
      List.findSome?_cons]
    · cases fault? (f a) <;> rfl
    · rw [fault?_bind _ _ (o := none) fun _ => rfl, Option.or_none]

theorem findSome?_flatMap (parts : α → List β) (cause : β → Option ε) (l : List α) :
    (l.flatMap parts).findSome? cause = l.findSome? fun a => (parts a).findSome? cause := by
  induction l with
  | nil => rfl
  | cons a rest ih =>
    rw [List.flatMap_cons, List.findSome?_append, ih, List.findSome?_cons]
    cases (parts a).findSome? cause <;> rfl

/-- **What work fails with**, if it fails: each fault is one of `p`. -/
def FailsWith (p : ε → Prop) (x : Except ε α) : Prop := ∀ fault, x = .error fault → p fault

namespace FailsWith

variable {p : ε → Prop}

theorem ok {a : α} : FailsWith p (.ok a) := fun _ h => nomatch h

theorem error {fault : ε} (h : p fault) : FailsWith p (.error fault : Except ε α) :=
  fun _ hfault => Except.error.inj hfault ▸ h

theorem bind {g : α → Except ε β} (hx : FailsWith p x) (hg : ∀ a, FailsWith p (g a)) :
    FailsWith p (x >>= g) := by
  cases x with
  | ok a => exact hg a
  | error fault => exact .error (hx fault rfl)

theorem mapM {g : α → Except ε β} (hg : ∀ a, FailsWith p (g a)) (l : List α) :
    FailsWith p (l.mapM g) := by
  induction l with
  | nil => exact .ok
  | cons a rest ih =>
    rw [List.mapM_cons]
    exact (hg a).bind fun _ => ih.bind fun _ => .ok

theorem mapError {y : Except ε' α} {g : ε' → ε} (hg : ∀ fault, p (g fault)) :
    FailsWith p (y.mapError g) := by
  cases y with
  | ok a => exact .ok
  | error fault => exact .error (hg fault)

end FailsWith

end SyntaxForest
