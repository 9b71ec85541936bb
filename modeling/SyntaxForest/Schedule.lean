import SyntaxForest.Journal

/-!
# Schedules

Jobs are told apart by their place in the input, and results are kept by that
place, so that input order can be restored however the jobs were run. A job may
change what all jobs share, and stopping is cooperative: once the shared state
says so, no further job is begun, jobs already begun come to their end, and the
run says how many were left out.

A bounded run keeps a window of begun jobs. Whenever there is room and no stop,
the next waiting jobs enter it; then one of the begun jobs comes to its end and
leaves it. Which one does is not the schedule's choice, so it is a parameter,
and what a job does to the shared state is seen when it ends.
-/

namespace SyntaxForest

/-- **A job**: how it ends, and what it makes of the state that jobs share. -/
abbrev Job (σ ε ρ : Type) := σ → Except ε ρ × σ

namespace Schedule

variable {σ ε ρ : Type}

/-- **What a run yields**: results by the places of their jobs, and the number of
jobs that were never begun. -/
structure Run (ρ : Type) where
  results : List (Nat × ρ)
  leftOut : Nat
  deriving Repr, DecidableEq

/-- Whether jobs were left out. -/
def Run.cancelled (r : Run ρ) : Bool := 0 < r.leftOut

/-- Results entered one by one: a later one for the same key replaces the
earlier. -/
def latest {κ : Type} [BEq κ] (results : List (κ × ρ)) : List (κ × ρ) :=
  results.foldl (fun kept r => kept.filter (·.1 != r.1) ++ [r]) []

/-- **Results in the order of their keys.** -/
def inOrder {κ : Type} [BEq κ] (le : κ → κ → Bool) (results : List (κ × ρ)) : List ρ :=
  ((latest results).mergeSort fun a b => le a.1 b.1).map (·.2)

/-- **The results of a run in input order.** -/
def Run.ordered (r : Run ρ) : List ρ := inOrder Nat.ble r.results

/-- Jobs with their places. -/
def placed (jobs : List (Job σ ε ρ)) : List (Nat × Job σ ε ρ) :=
  jobs.zipIdx.map fun (job, i) => (i, job)

/-! ## One after another -/

/-- The rest of a sequential run that has some results already. -/
def sequentialFrom (stop : σ → Bool) (results : List (Nat × ρ)) :
    List (Nat × Job σ ε ρ) → σ → Except ε (Run ρ) × σ
  | [], s => (.ok ⟨results, 0⟩, s)
  | (i, job) :: rest, s =>
    if stop s then (.ok ⟨results, rest.length + 1⟩, s)
    else
      match job s with
      | (.error e, s) => (.error e, s)
      | (.ok r, s) => sequentialFrom stop (results ++ [(i, r)]) rest s

/-- **A sequential run.** The first job that fails ends it. -/
def sequential (stop : σ → Bool) (jobs : List (Job σ ε ρ)) (s : σ) : Except ε (Run ρ) × σ :=
  sequentialFrom stop [] (placed jobs) s

/-! ## Bounded -/

/-- Which of the begun jobs comes to its end, given how many have ended before
and how many are begun. It is taken modulo the latter. -/
abbrev Completion := Nat → Nat → Nat

/-- The jobs end in the order in which they were begun. -/
def Completion.firstBegun : Completion := fun _ _ => 0

/-- **The window of a bounded run.** -/
structure Window (σ ε ρ : Type) where
  /-- Jobs that have not been begun. -/
  waiting : List (Nat × Job σ ε ρ)
  /-- Jobs that have been begun and have not ended. -/
  begun : List (Nat × Job σ ε ρ)
  /-- What the jobs that have ended have yielded. -/
  results : List (Nat × ρ)

namespace Window

/-- The window before any job is begun. -/
def initial (jobs : List (Job σ ε ρ)) : Window σ ε ρ := ⟨placed jobs, [], []⟩

/-- **Beginning waiting jobs** as long as there is room. -/
def fill (limit : Nat) (w : Window σ ε ρ) : Window σ ε ρ :=
  let room := limit - w.begun.length
  { w with waiting := w.waiting.drop room, begun := w.begun ++ w.waiting.take room }

/-- The window with jobs begun, unless the state says stop. -/
def fillUnless (stop : Bool) (limit : Nat) (w : Window σ ε ρ) : Window σ ε ρ :=
  if stop then w else w.fill limit

/-- What is left to do, counted so that beginning a job is less than ending it. -/
def work (w : Window σ ε ρ) : Nat := 2 * w.waiting.length + w.begun.length

theorem work_fill_le (limit : Nat) (w : Window σ ε ρ) : (w.fill limit).work ≤ w.work := by
  simp only [fill, work, List.length_append, List.length_take, List.length_drop]
  omega

theorem work_fillUnless_le (stop : Bool) (limit : Nat) (w : Window σ ε ρ) :
    (w.fillUnless stop limit).work ≤ w.work := by
  cases stop with
  | false => exact w.work_fill_le limit
  | true => exact Nat.le_refl w.work

/-- The place in the window of the job that ends next. -/
def turn (completion : Completion) (w : Window σ ε ρ) : Nat :=
  completion w.results.length w.begun.length % w.begun.length

/-- The state when all begun jobs have come to their ends. -/
def drain (jobs : List (Nat × Job σ ε ρ)) (s : σ) : σ := jobs.foldl (fun s j => (j.2 s).2) s

/-- **The rest of a bounded run.** A job that fails ends it when the other begun
jobs have ended. -/
def run (limit : Nat) (stop : σ → Bool) (completion : Completion) (w : Window σ ε ρ) (s : σ) :
    Except ε (Run ρ) × σ :=
  let filled := w.fillUnless (stop s) limit
  let others := filled.begun.eraseIdx (filled.turn completion)
  match _ended : filled.begun[filled.turn completion]? with
  | none => (.ok ⟨filled.results, filled.waiting.length⟩, s)
  | some (i, job) =>
    match job s with
    | (.error e, after) => (.error e, drain others after)
    | (.ok r, after) =>
      run limit stop completion ⟨filled.waiting, others, filled.results ++ [(i, r)]⟩ after
  termination_by w.work
  decreasing_by
    obtain ⟨inside, _⟩ := List.getElem?_eq_some_iff.mp _ended
    have bound : filled.work ≤ w.work := work_fillUnless_le (stop s) limit w
    have left : others.length = filled.begun.length - 1 := by
      simp [others, List.length_eraseIdx, inside]
    simp only [work] at bound
    show 2 * filled.waiting.length + others.length < 2 * w.waiting.length + w.begun.length
    omega

end Window

/-- Why a bounded run yields nothing. -/
inductive Fault (ε : Type)
  /-- A window has to have room for a job. -/
  | noRoom (limit : Int)
  | job (fault : ε)

/-- The wording for a limit that leaves no room. -/
def noRoomMessage (limit : Int) : String :=
  "max_concurrency must be at least 1, got " ++ toString limit

/-- **A bounded run**, with at most `limit` jobs begun at a time. -/
def bounded (limit : Int) (stop : σ → Bool) (completion : Completion)
    (jobs : List (Job σ ε ρ)) (s : σ) : Except (Fault ε) (Run ρ) × σ :=
  if limit < 1 then (.error (.noRoom limit), s)
  else
    let (r, s) := (Window.initial jobs).run limit.toNat stop completion s
    (r.mapError .job, s)

/-- What is told of a bounded run of some jobs that left some of them out. -/
def Run.entries (total : Nat) (r : Run ρ) : List Journal.Entry :=
  if r.cancelled then
    [.info "polyast.processing.pool"
      ("Run cancelled: " ++ toString r.leftOut ++ " of " ++ toString total
        ++ " jobs not scheduled")]
  else []

end Schedule

end SyntaxForest
