import SyntaxForest.Batch.Aggregate
import SyntaxForest.Proofs.Batch.Outcome

/-!
# Results are dealt out to their projects

A run over files that all have an outcome has the results for the files in their order,
one after another or several at a time (`runFiles_brings`). Where the files are those of
several projects put in a row, each result goes back to the project that owns its place:
`dealOut` makes the reports that the projects' own outcomes make (`dealOut_eq`), also where
the row of results ends before that of the files does. The induction goes along the row; it
keeps what stands before a project apart from what stands behind it.
-/

namespace SyntaxForest.Batch

open Analysis

variable {α β : Type} {s : Setting} {paths : List Path} {outcomes : List FileOutcome}

/-! ## The results for files with outcomes -/

/-- Every file has its outcome. -/
def Outcomes (s : Setting) (paths : List Path) (outcomes : List FileOutcome) : Prop :=
  List.Forall₂ (fun path o => ComesTo (analysePath s path) (.ok o)) paths outcomes

/-- **The results for files with outcomes**, that stand in a row from the place `k` on. -/
def resultsFrom (k : Nat) (paths : List Path) (outcomes : List FileOutcome) : List FileResult :=
  ((paths.zip outcomes).zipIdx k).map fun ((path, o), i) => ⟨i, path.text, o⟩

theorem length_resultsFrom (h : outcomes.length ≤ paths.length) (k : Nat) :
    (resultsFrom k paths outcomes).length = outcomes.length := by
  rw [resultsFrom, List.length_map, List.length_zipIdx, List.length_zip, Nat.min_eq_right h]

theorem outcomes_resultsFrom (h : outcomes.length ≤ paths.length) (k : Nat) :
    Batch.outcomes (resultsFrom k paths outcomes) = outcomes := by
  rw [Batch.outcomes, resultsFrom, List.map_map]
  show ((paths.zip outcomes).zipIdx k).map (Prod.snd ∘ Prod.fst) = outcomes
  rw [← List.map_map, List.zipIdx_map_fst, List.map_snd_zip h]

theorem index_of_mem_resultsFrom {k : Nat} {r : FileResult}
    (hr : r ∈ resultsFrom k paths outcomes) : k ≤ r.index ∧ r.index < k + paths.length := by
  obtain ⟨⟨⟨path, o⟩, i⟩, hmem, rfl⟩ := List.mem_map.mp hr
  obtain ⟨hle, hlt, -⟩ := List.mem_zipIdx hmem
  rw [List.length_zip] at hlt
  exact ⟨hle, by show i < _; omega⟩

/-- Outcomes for files of which some stand behind others. -/
theorem resultsFrom_append (paths paths' : List Path) (outcomes : List FileOutcome) (k : Nat) :
    resultsFrom k (paths ++ paths') outcomes
      = resultsFrom k paths (outcomes.take paths.length)
        ++ resultsFrom (k + paths.length) paths' (outcomes.drop paths.length) := by
  induction paths generalizing outcomes k with
  | nil => rfl
  | cons path paths ih =>
    cases outcomes with
    | nil => simp [resultsFrom]
    | cons o outcomes =>
      show ⟨k, path.text, o⟩ :: resultsFrom (k + 1) (paths ++ paths') outcomes = _
      rw [ih, List.length_cons, ← Nat.add_assoc, Nat.add_right_comm]
      rfl

/-! ## Runs -/

/-- **Work brings about a value** of some kind, whatever has happened before. -/
def Brings (w : Work α) (P : α → Prop) : Prop :=
  ∀ p : Progress, p.Calm → ∃ a p', w.run p = (.ok a, p') ∧ P a ∧ p'.Calm

theorem Brings.bind {w : Work α} {f : α → Work β} {P : α → Prop} {r : Except Fault β}
    (h : Brings w P) (h' : ∀ a, P a → ComesTo (f a) r) : ComesTo (w >>= f) r := by
  intro p hp
  obtain ⟨a, p₁, hrun, ha, hp₁⟩ := h p hp
  obtain ⟨p₂, hrest, hp₂⟩ := h' a ha p₁ hp₁
  exact ⟨p₂, (run_bind hrun).trans hrest, hp₂⟩

theorem Brings.get_bind {f : Progress → Work α} {P : α → Prop}
    (h : ∀ p : Progress, p.Calm → Brings (f p) P) : Brings (get >>= f) P :=
  fun p hp => h p hp p hp

theorem ComesTo.brings {w : Work α} {P : α → Prop} {a : α} (h : ComesTo w (.ok a)) (ha : P a) :
    Brings w P := by
  intro p hp
  obtain ⟨p', hrun, hp'⟩ := h p hp
  exact ⟨a, p', hrun, ha, hp'⟩

/-- The jobs for files yield their results. -/
theorem jobs_yield (h : Outcomes s paths outcomes) :
    List.Forall₂ (Job.Yields Progress.Calm) (jobs s paths) (resultsFrom 0 paths outcomes) := by
  suffices hgo : ∀ k, List.Forall₂ (Job.Yields Progress.Calm)
      ((paths.zipIdx k).map fun p => (analyseFile s p.2 p.1).run)
      (resultsFrom k paths outcomes) from hgo 0
  induction h with
  | nil => exact fun _ => .nil
  | @cons path o paths outcomes ho _ ih =>
    intro k
    exact .cons (ComesTo.bind ho (.pure _)) (ih (k + 1))

/-- What a schedule has come to, as work. -/
theorem ofRun_comesTo (r : Except Fault (Schedule.Run FileResult)) {p : Progress} (hp : p.Calm) :
    ComesTo (ofRun (r, p)) r := by
  intro _ _
  cases r <;> exact ⟨p, rfl, hp⟩

/-- **A run over files that all have an outcome** has the results for the files, in their
order. -/
theorem runFiles_brings (hopen : s.Open) (h : Outcomes s paths outcomes) :
    Brings (runFiles s paths) fun run =>
      run.ordered = resultsFrom 0 paths outcomes ∧ run.cancelled = false := by
  have hyield := jobs_yield h
  have hgoes : ∀ p : Progress, p.Calm → p.cancelled = false := fun _ hp => hp
  refine .get_bind fun p hp => ?_
  cases s.options.mode with
  | sequential =>
    obtain ⟨p', hrun, hp'⟩ := Schedule.sequential_of_yields hgoes hyield hp
    dsimp only
    rw [hrun]
    exact (ofRun_comesTo _ hp').brings ⟨Schedule.ordered_eq (.refl _), rfl⟩
  | concurrent =>
    obtain ⟨run, p', hrun, hresults, hleft, hp'⟩ :=
      Schedule.bounded_of_yields hopen.room s.completion hgoes hyield hp
    dsimp only
    rw [hrun]
    refine ComesTo.brings (a := run)
      (.bind (ofRun_comesTo (.ok run) hp') (.bind (tellAll_comesTo _) (.pure run))) ?_
    refine ⟨Schedule.ordered_eq hresults, ?_⟩
    rw [Schedule.Run.cancelled, hleft]
    rfl

/-! ## Dealing out -/

/-- The owners from the `j`-th project on. -/
def ownersFrom (j : Nat) (manifests : List ProjectManifest) : List Nat :=
  (manifests.zipIdx j).flatMap fun (m, owner) => List.replicate m.files.length owner

theorem le_of_mem_ownersFrom {j owner : Nat} {manifests : List ProjectManifest}
    (h : owner ∈ ownersFrom j manifests) : j ≤ owner := by
  obtain ⟨⟨m, i⟩, hmem, hin⟩ := List.mem_flatMap.mp h
  rw [List.eq_of_mem_replicate hin]
  exact (List.mem_zipIdx hmem).1

/-- The places of an owner are those between what others own. -/
theorem owner_iff {before after : List Nat} {j n i : Nat} (hbefore : ∀ owner ∈ before, owner < j)
    (hafter : ∀ owner ∈ after, j < owner) :
    ((before ++ (List.replicate n j ++ after))[i]? == some j) = true
      ↔ before.length ≤ i ∧ i < before.length + n := by
  rw [beq_iff_eq]
  by_cases hlow : i < before.length
  · rw [List.getElem?_append_left hlow, List.getElem?_eq_getElem hlow]
    have hne := hbefore _ (List.getElem_mem hlow)
    constructor
    · intro heq
      rw [Option.some.inj heq] at hne
      exact absurd hne (Nat.lt_irrefl j)
    · omega
  · rw [List.getElem?_append_right (Nat.not_lt.mp hlow)]
    by_cases hown : i - before.length < n
    · rw [List.getElem?_append_left (by rwa [List.length_replicate]),
        List.getElem?_replicate_of_lt hown]
      exact iff_of_true rfl (by omega)
    · rw [List.getElem?_append_right (by rw [List.length_replicate]; omega)]
      refine iff_of_false (fun heq => ?_) (by omega)
      exact absurd (hafter j (List.mem_of_getElem? heq)) (Nat.lt_irrefl j)

/-- The results that an owner is dealt are those at its places. -/
theorem filter_owner {before after : List Nat} {j n : Nat} (hbefore : ∀ owner ∈ before, owner < j)
    (hafter : ∀ owner ∈ after, j < owner) {earlier own later : List FileResult}
    (hearlier : ∀ r ∈ earlier, r.index < before.length)
    (hown : ∀ r ∈ own, before.length ≤ r.index ∧ r.index < before.length + n)
    (hlater : ∀ r ∈ later, before.length + n ≤ r.index) :
    (earlier ++ (own ++ later)).filter
      (fun r => (before ++ (List.replicate n j ++ after))[r.index]? == some j) = own := by
  have hearlier' : earlier.filter
      (fun r => (before ++ (List.replicate n j ++ after))[r.index]? == some j) = [] := by
    refine List.filter_eq_nil_iff.mpr fun r hr => ?_
    rw [owner_iff hbefore hafter]
    have := hearlier r hr
    omega
  have hlater' : later.filter
      (fun r => (before ++ (List.replicate n j ++ after))[r.index]? == some j) = [] := by
    refine List.filter_eq_nil_iff.mpr fun r hr => ?_
    rw [owner_iff hbefore hafter]
    have := hlater r hr
    omega
  have hown' : own.filter
      (fun r => (before ++ (List.replicate n j ++ after))[r.index]? == some j) = own :=
    List.filter_eq_self.mpr fun r hr => (owner_iff hbefore hafter).mpr (hown r hr)
  rw [List.filter_append, List.filter_append, hearlier', hown', hlater', List.nil_append,
    List.append_nil]

/-- **The shares of projects** in outcomes that are put in a row, of which the last ones may
be missing. -/
def shares : List ProjectManifest → List FileOutcome → List (List FileOutcome)
  | [], _ => []
  | m :: rest, outcomes =>
    outcomes.take m.files.length :: shares rest (outcomes.drop m.files.length)

/-- The report that outcomes for the first files of a project make. -/
def shareReport (now : Moment) (m : ProjectManifest) (outcomes : List FileOutcome) :
    ProjectReport :=
  .ofOutcomes m.path.text m.name m.dependencies now outcomes (outcomes.length < m.files.length)

/-- **Each project is dealt its share**: also if projects share files, or have none. -/
theorem dealOut_eq (now : Moment) (manifests : List ProjectManifest)
    (outcomes : List FileOutcome) :
    dealOut now (resultsFrom 0 (manifests.flatMap (·.files)) outcomes) manifests
      = List.zipWith (shareReport now) manifests (shares manifests outcomes) := by
  suffices hgo : ∀ (before : List Nat) (earlier : List FileResult) (j : Nat),
      (∀ owner ∈ before, owner < j) → (∀ r ∈ earlier, r.index < before.length) →
      (manifests.zipIdx j).map (fun (m, owner) =>
        let own := (earlier ++ resultsFrom before.length (manifests.flatMap (·.files))
          outcomes).filter fun r =>
            (before ++ ownersFrom j manifests)[r.index]? == some owner
        projectReport now m own (own.length < m.files.length))
      = List.zipWith (shareReport now) manifests (shares manifests outcomes) from
    hgo [] [] 0 (fun _ hin => nomatch hin) (fun _ hin => nomatch hin)
  induction manifests generalizing outcomes with
  | nil => exact fun _ _ _ _ _ => rfl
  | cons m manifests ih =>
    intro before earlier j hbefore hearlier
    have hlength : (outcomes.take m.files.length).length ≤ m.files.length :=
      List.length_take_le _ _
    have hrest : ∀ r ∈ resultsFrom (before.length + m.files.length)
        (manifests.flatMap (·.files)) (outcomes.drop m.files.length),
        before.length + m.files.length ≤ r.index :=
      fun r hr => (index_of_mem_resultsFrom hr).1
    have hown := @filter_owner before (ownersFrom (j + 1) manifests) j m.files.length hbefore
      (fun _ hin => le_of_mem_ownersFrom hin) earlier
      (resultsFrom before.length m.files (outcomes.take m.files.length)) _ hearlier
      (fun _ hr => index_of_mem_resultsFrom hr) hrest
    have howners : ownersFrom j (m :: manifests)
        = List.replicate m.files.length j ++ ownersFrom (j + 1) manifests := rfl
    rw [List.zipIdx_cons, List.map_cons, shares, List.zipWith_cons_cons, List.flatMap_cons,
      resultsFrom_append, howners]
    dsimp only
    rw [hown, projectReport, outcomes_resultsFrom hlength, length_resultsFrom hlength]
    -- what belongs to this project stands before all others
    have htail := ih (outcomes.drop m.files.length) (before ++ List.replicate m.files.length j)
      (earlier ++ resultsFrom before.length m.files (outcomes.take m.files.length)) (j + 1)
      (fun owner hin => by
        rcases List.mem_append.mp hin with hin | hin
        · exact Nat.lt_succ_of_lt (hbefore owner hin)
        · rw [List.eq_of_mem_replicate hin]
          exact Nat.lt_succ_self j)
      (fun r hr => by
        rw [List.length_append, List.length_replicate]
        rcases List.mem_append.mp hr with hr | hr
        · exact Nat.lt_add_right _ (hearlier r hr)
        · exact (index_of_mem_resultsFrom hr).2)
    rw [List.length_append, List.length_replicate, List.append_assoc, List.append_assoc] at htail
    rw [← htail]
    rfl

/-- The report that outcomes for all files of a project make. -/
def wholeReport (now : Moment) (m : ProjectManifest) (outcomes : List FileOutcome) :
    ProjectReport :=
  .ofOutcomes m.path.text m.name m.dependencies now outcomes false

/-- **Each project is dealt the outcomes of its own files**, in their order, if all files have
outcomes. -/
theorem dealOut_resultsFrom (now : Moment) {manifests : List ProjectManifest}
    {outcomes : List (List FileOutcome)}
    (h : List.Forall₂ (fun m os => m.files.length = os.length) manifests outcomes) :
    dealOut now (resultsFrom 0 (manifests.flatMap (·.files)) outcomes.flatten) manifests
      = List.zipWith (wholeReport now) manifests outcomes := by
  rw [dealOut_eq]
  induction h with
  | nil => rfl
  | @cons m os manifests outcomes hm _ ih =>
    have hwhole : shareReport now m os = wholeReport now m os := by
      rw [shareReport, hm, decide_eq_false (Nat.lt_irrefl _), wholeReport]
    rw [List.flatten_cons, shares, hm, List.take_left, List.drop_left, List.zipWith_cons_cons,
      List.zipWith_cons_cons, ih, hwhole]

end SyntaxForest.Batch
