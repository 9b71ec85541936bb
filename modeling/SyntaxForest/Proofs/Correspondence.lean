import Mathlib.Data.List.Forall2
import Mathlib.Data.Option.Basic

/-!
# Lists in correspondence

Two lists may correspond entry by entry, and then whatever is the same of corresponding entries is
the same of the lists. Or the second list may have further entries among those that correspond
(`Interspersed`). What never picks a further entry picks lists that correspond entry by entry
(`Interspersed.filter_forall₂`), so it counts and finds the same in both.
-/

namespace SyntaxForest

/-! ## Entry by entry -/

section Entries

variable {α β γ : Type} {R : α → β → Prop} {as : List α} {bs : List β} {f : α → γ} {g : β → γ}

theorem forall₂_imp_of_mem {S : α → β → Prop} (h : List.Forall₂ R as bs)
    (himp : ∀ a ∈ as, ∀ b ∈ bs, R a b → S a b) : List.Forall₂ S as bs := by
  induction h with
  | nil => exact .nil
  | cons hab _ ih =>
    refine .cons (himp _ List.mem_cons_self _ List.mem_cons_self hab) (ih fun a ha b hb => ?_)
    exact himp a (List.mem_cons_of_mem _ ha) b (List.mem_cons_of_mem _ hb)

/-- What is in the second list corresponds to something in the first. -/
theorem exists_of_mem_right (h : List.Forall₂ R as bs) {b : β} (hb : b ∈ bs) :
    ∃ a ∈ as, R a b := by
  induction h with
  | nil => cases hb
  | cons hab _ ih =>
    rcases List.mem_cons.mp hb with rfl | hb
    · exact ⟨_, List.mem_cons_self, hab⟩
    · obtain ⟨a, ha, hR⟩ := ih hb
      exact ⟨a, List.mem_cons_of_mem _ ha, hR⟩

theorem map_eq_of_forall₂ (h : List.Forall₂ R as bs) (hfg : ∀ a b, R a b → g b = f a) :
    bs.map g = as.map f := by
  induction h with
  | nil => rfl
  | cons hab _ ih => rw [List.map_cons, List.map_cons, hfg _ _ hab, ih]

theorem flatMap_eq_of_forall₂ {f : α → List γ} {g : β → List γ} (h : List.Forall₂ R as bs)
    (hfg : ∀ a b, R a b → g b = f a) : bs.flatMap g = as.flatMap f := by
  rw [List.flatMap_def, List.flatMap_def, map_eq_of_forall₂ h hfg]

theorem filterMap_eq_of_forall₂ {f : α → Option γ} {g : β → Option γ} (h : List.Forall₂ R as bs)
    (hfg : ∀ a b, R a b → g b = f a) : bs.filterMap g = as.filterMap f := by
  induction h with
  | nil => rfl
  | cons hab _ ih => rw [List.filterMap_cons, List.filterMap_cons, hfg _ _ hab, ih]

theorem isEmpty_eq_of_forall₂ (h : List.Forall₂ R as bs) : bs.isEmpty = as.isEmpty := by
  cases h <;> rfl

theorem getElem?_of_forall₂ (h : List.Forall₂ R as bs) (i : Nat) :
    Option.Rel R as[i]? bs[i]? := by
  induction h generalizing i with
  | nil => exact .none
  | cons hab _ ih =>
    cases i with
    | zero => exact .some hab
    | succ i => exact ih i

theorem head?_of_forall₂ (h : List.Forall₂ R as bs) : Option.Rel R as.head? bs.head? := by
  cases h with
  | nil => exact .none
  | cons hab => exact .some hab

theorem map_eq_of_rel {o : Option α} {o' : Option β} (h : Option.Rel R o o')
    (hfg : ∀ a b, R a b → g b = f a) : o'.map g = o.map f := by
  cases h with
  | none => rfl
  | some hab => exact congrArg some (hfg _ _ hab)

/-- What is true of neither or of both of two corresponding entries. -/
theorem any_eq_of_rel {o : Option α} {o' : Option β} {p : α → Bool} {q : β → Bool}
    (h : Option.Rel R o o') (hpq : ∀ a b, b ∈ o' → R a b → q b = p a) : o'.any q = o.any p := by
  cases h with
  | none => rfl
  | some hab => exact hpq _ _ rfl hab

theorem forall₂_toList {o : Option α} {o' : Option β}
    (h : Option.Rel R o o') : List.Forall₂ R o.toList o'.toList := by
  cases h with
  | none => exact .nil
  | some hab => exact .cons hab .nil

end Entries

/-! ## Further entries -/

/-- **Two lists that agree but for further entries** of the second. -/
inductive Interspersed {α β : Type} (R : α → β → Prop) (extra : β → Prop) :
    List α → List β → Prop
  | nil : Interspersed R extra [] []
  | keep {a : α} {b : β} {as : List α} {bs : List β} (same : R a b)
      (rest : Interspersed R extra as bs) : Interspersed R extra (a :: as) (b :: bs)
  | add {b : β} {as : List α} {bs : List β} (further : extra b)
      (rest : Interspersed R extra as bs) : Interspersed R extra as (b :: bs)

namespace Interspersed

variable {α β : Type} {R S : α → β → Prop} {extra : β → Prop} {as as' : List α} {bs bs' : List β}

theorem append (h : Interspersed R extra as bs) (h' : Interspersed R extra as' bs') :
    Interspersed R extra (as ++ as') (bs ++ bs') := by
  induction h with
  | nil => exact h'
  | keep same _ ih => exact .keep same ih
  | add further _ ih => exact .add further ih

theorem reverse (h : Interspersed R extra as bs) :
    Interspersed R extra as.reverse bs.reverse := by
  induction h with
  | nil => exact .nil
  | keep same _ ih =>
    rw [List.reverse_cons, List.reverse_cons]
    exact ih.append (.keep same .nil)
  | add further _ ih =>
    rw [List.reverse_cons, ← List.append_nil (List.reverse _)]
    exact ih.append (.add further .nil)

/-- Entries are related that are there. -/
theorem imp_of_mem (h : Interspersed R extra as bs)
    (himp : ∀ a ∈ as, ∀ b ∈ bs, R a b → S a b) : Interspersed S extra as bs := by
  induction h with
  | nil => exact .nil
  | keep same _ ih =>
    refine .keep (himp _ List.mem_cons_self _ List.mem_cons_self same) (ih fun a ha b hb => ?_)
    exact himp a (List.mem_cons_of_mem _ ha) b (List.mem_cons_of_mem _ hb)
  | add further _ ih =>
    exact .add further (ih fun a ha b hb => himp a ha b (List.mem_cons_of_mem _ hb))

theorem map {γ δ : Type} {S : γ → δ → Prop} {extra' : δ → Prop} {f : α → γ} {g : β → δ}
    (h : Interspersed R extra as bs) (hkeep : ∀ a b, R a b → S (f a) (g b))
    (hadd : ∀ b, extra b → extra' (g b)) : Interspersed S extra' (as.map f) (bs.map g) := by
  induction h with
  | nil => exact .nil
  | keep same _ ih => exact .keep (hkeep _ _ same) ih
  | add further _ ih => exact .add (hadd _ further) ih

/-- **Picking entries** picks related ones. -/
theorem filter {p : α → Bool} {q : β → Bool} (h : Interspersed R extra as bs)
    (hpq : ∀ a b, R a b → q b = p a) :
    Interspersed R extra (as.filter p) (bs.filter q) := by
  induction h with
  | nil => exact .nil
  | @keep a b _ _ same _ ih =>
    rw [List.filter_cons, List.filter_cons, hpq a b same]
    split
    · exact .keep same ih
    · exact ih
  | @add b _ bs further _ ih =>
    rw [List.filter_cons (x := b)]
    split
    · exact .add further ih
    · exact ih

/-- Further entries that are none are no difference. -/
theorem forall₂ (h : Interspersed R extra as bs) (hnone : ∀ b ∈ bs, ¬extra b) :
    List.Forall₂ R as bs := by
  induction h with
  | nil => exact .nil
  | keep same _ ih => exact .cons same (ih fun b hb => hnone b (List.mem_cons_of_mem _ hb))
  | add further => exact absurd further (hnone _ List.mem_cons_self)

/-- **Picking what is never a further entry** leaves the lists in agreement. -/
theorem filter_forall₂ {p : α → Bool} {q : β → Bool} (h : Interspersed R extra as bs)
    (hpq : ∀ a b, R a b → q b = p a) (hextra : ∀ b, extra b → q b = false) :
    List.Forall₂ R (as.filter p) (bs.filter q) := by
  refine (h.filter hpq).forall₂ fun b hb hfurther => ?_
  have hq := (List.mem_filter.mp hb).2
  rw [hextra b hfurther] at hq
  cases hq

theorem find?_rel {p : α → Bool} {q : β → Bool} (h : Interspersed R extra as bs)
    (hpq : ∀ a b, R a b → q b = p a) (hextra : ∀ b, extra b → q b = false) :
    Option.Rel R (as.find? p) (bs.find? q) := by
  rw [← List.head?_filter, ← List.head?_filter]
  exact head?_of_forall₂ (h.filter_forall₂ hpq hextra)

theorem countP_eq {p : α → Bool} {q : β → Bool} (h : Interspersed R extra as bs)
    (hpq : ∀ a b, R a b → q b = p a) (hextra : ∀ b, extra b → q b = false) :
    bs.countP q = as.countP p := by
  rw [List.countP_eq_length_filter, List.countP_eq_length_filter]
  exact (h.filter_forall₂ hpq hextra).length_eq.symm

theorem countP_le {p : α → Bool} {q : β → Bool} (h : Interspersed R extra as bs)
    (hpq : ∀ a b, R a b → q b = true → p a = true) (hextra : ∀ b, extra b → q b = false) :
    bs.countP q ≤ as.countP p := by
  induction h with
  | nil => exact Nat.le_refl _
  | @keep a b _ _ same _ ih =>
    rw [List.countP_cons, List.countP_cons]
    refine Nat.add_le_add ih ?_
    by_cases hq : q b = true
    · simp [hq, hpq a b same hq]
    · simp [hq]
  | @add b _ _ further _ ih => rwa [List.countP_cons_of_neg (by rw [hextra b further]; decide)]

theorem any_eq {p : α → Bool} {q : β → Bool} (h : Interspersed R extra as bs)
    (hpq : ∀ a b, R a b → q b = p a) (hextra : ∀ b, extra b → q b = false) :
    bs.any q = as.any p := by
  induction h with
  | nil => rfl
  | @keep a b _ _ same _ ih => rw [List.any_cons, List.any_cons, hpq a b same, ih]
  | @add b _ _ further _ ih => rw [List.any_cons, hextra b further, ih, Bool.false_or]

theorem of_nil (h : Interspersed R extra [] bs) : ∀ b ∈ bs, extra b := by
  generalize has : ([] : List α) = as at h
  induction h with
  | nil => exact fun b hb => nomatch hb
  | keep => cases has
  | add further _ ih => exact List.forall_mem_cons.mpr ⟨further, ih has⟩

theorem exists_cons {a : α} (h : Interspersed R extra (a :: as) bs) :
    ∃ b rest, bs = b :: rest := by
  cases h with
  | keep => exact ⟨_, _, rfl⟩
  | add => exact ⟨_, _, rfl⟩

/-- What comes first is no further entry, or else the lists agree in front. -/
theorem head?_rel (h : Interspersed R extra as bs) (hhead : ∀ b ∈ bs.head?, ¬extra b) :
    Option.Rel R as.head? bs.head? := by
  cases h with
  | nil => exact .none
  | keep same => exact .some same
  | add further => exact absurd further (hhead _ rfl)

theorem getLast?_rel (h : Interspersed R extra as bs) (hlast : ∀ b ∈ bs.getLast?, ¬extra b) :
    Option.Rel R as.getLast? bs.getLast? := by
  rw [← List.head?_reverse, ← List.head?_reverse]
  exact h.reverse.head?_rel (by rwa [List.head?_reverse])

end Interspersed

end SyntaxForest
