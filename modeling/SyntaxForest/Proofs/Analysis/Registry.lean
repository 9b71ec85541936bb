import Mathlib.Data.List.Nodup
import SyntaxForest.Analysis.Registry

/-!
# A registry over time

A registry is changed by two calls: an analyzer is registered behind those that are there, or no
more are taken. No call removes an analyzer or puts one in front of another. So the first one that
claims a path stays the first, whatever is registered later, and whoever has resolved a path may
go on with the answer (`resolution_stable`).

Two analyzers are never of one language, so the answer is told by its language. The hypothesis
that carries this is the beginning: a registry that is not made by calls may have anything.
-/

namespace SyntaxForest.Analysis.Registry

variable {r r' : Registry} {a : Analyzer} {path : String}

/-! ## Calls -/

/-- **A call that may change a registry.** -/
inductive Call
  | register (a : Analyzer)
  | freeze

/-- The registry after a call, and why the call is refused if it is. -/
def call (r : Registry) : Call → Registry × Option Refusal
  | .register a => r.registerAll [a]
  | .freeze => (r.freeze, none)

/-- **The registry after calls**, refused or not. -/
def run (r : Registry) (calls : List Call) : Registry := calls.foldl (fun r c => (r.call c).1) r

/-- **What a call does**, and when. -/
inductive Effect (r : Registry) (c : Call) (answer : Registry × Option Refusal) : Prop
  | registered (a : Analyzer) (hcall : c = .register a) (hopen : r.frozen = false)
      (hnew : a.language ∉ r.languages)
      (h : answer = ({ r with analyzers := r.analyzers ++ [a] }, none))
  | late (a : Analyzer) (hcall : c = .register a) (hfrozen : r.frozen = true)
      (h : answer = (r, some .frozen))
  | duplicate (a : Analyzer) (hcall : c = .register a) (hopen : r.frozen = false)
      (hold : a.language ∈ r.languages) (h : answer = (r, some (.duplicate a.language)))
  | freeze (hcall : c = .freeze) (h : answer = ({ r with frozen := true }, none))

theorem any_language_iff :
    r.analyzers.any (·.language == a.language) = true ↔ a.language ∈ r.languages := by
  simp only [languages, List.any_eq_true, List.mem_map, beq_iff_eq]

theorem call_effect (r : Registry) (c : Call) : Effect r c (r.call c) := by
  cases c with
  | freeze => exact .freeze rfl rfl
  | register a =>
    rw [call, registerAll, register]
    by_cases hfrozen : r.frozen = true
    · rw [if_pos hfrozen]
      exact .late a rfl hfrozen rfl
    · have hopen : r.frozen = false := Bool.eq_false_iff.mpr hfrozen
      rw [if_neg hfrozen]
      by_cases hold : a.language ∈ r.languages
      · rw [if_pos (any_language_iff.mpr hold)]
        exact .duplicate a rfl hopen hold rfl
      · rw [if_neg fun h => hold (any_language_iff.mp h)]
        exact .registered a rfl hopen hold rfl

/-! ## What calls keep -/

/-- **A registry that comes after another**: it has the same analyzers in front, and is the same
if the other one is frozen. -/
structure Extends (r r' : Registry) : Prop where
  analyzers : r.analyzers <+: r'.analyzers
  frozen : r.frozen = true → r' = r

theorem Extends.refl (r : Registry) : Extends r r := ⟨List.prefix_refl _, fun _ => rfl⟩

theorem Extends.trans {r'' : Registry} (h : Extends r r') (h' : Extends r' r'') :
    Extends r r'' := by
  refine ⟨h.analyzers.trans h'.analyzers, fun hfrozen => ?_⟩
  obtain rfl := h.frozen hfrozen
  exact h'.frozen hfrozen

/-- **A call** adds at most one analyzer, behind the others. -/
theorem extends_call (r : Registry) (c : Call) : Extends r (r.call c).1 := by
  cases call_effect r c with
  | registered a _ hopen _ h =>
    rw [h]
    exact ⟨List.prefix_append _ _, fun hfrozen => by rw [hopen] at hfrozen; cases hfrozen⟩
  | late a _ _ h => rw [h]; exact .refl r
  | duplicate a _ _ _ h => rw [h]; exact .refl r
  | freeze _ h =>
    rw [h]
    exact ⟨List.prefix_refl _, fun hfrozen => by rw [← hfrozen]⟩

/-- **Calls** add analyzers behind the others. -/
theorem extends_run (r : Registry) (calls : List Call) : Extends r (r.run calls) := by
  induction calls generalizing r with
  | nil => exact .refl r
  | cons c rest ih => exact (extends_call r c).trans (ih (r.call c).1)

theorem nodup_call (hnodup : r.languages.Nodup) (c : Call) : (r.call c).1.languages.Nodup := by
  cases call_effect r c with
  | registered a _ _ hnew h =>
    rw [h]
    show ((r.analyzers ++ [a]).map (·.language)).Nodup
    rw [List.map_append, List.map_singleton, ← List.concat_eq_append]
    exact hnodup.concat hnew
  | late a _ _ h => rw [h]; exact hnodup
  | duplicate a _ _ _ h => rw [h]; exact hnodup
  | freeze _ h => rw [h]; exact hnodup

/-- **No language is registered twice** by calls. -/
theorem nodup_run (h : r.languages.Nodup) (calls : List Call) :
    (r.run calls).languages.Nodup := by
  induction calls generalizing r with
  | nil => exact h
  | cons c rest ih => exact ih (nodup_call h c)

/-- **A call that is refused** changes nothing. -/
theorem call_of_refused {c : Call} {refusal : Refusal} (hrefused : (r.call c).2 = some refusal) :
    (r.call c).1 = r := by
  cases call_effect r c with
  | registered a _ _ _ h => rw [h] at hrefused; cases hrefused
  | late a _ _ h => rw [h]
  | duplicate a _ _ _ h => rw [h]
  | freeze _ h => rw [h] at hrefused; cases hrefused

/-- **Why a registration is refused**: it comes too late, or its language is there. -/
theorem call_register_eq_some_iff {refusal : Refusal} :
    (r.call (.register a)).2 = some refusal ↔ r.frozen = true ∧ refusal = .frozen
      ∨ r.frozen = false ∧ a.language ∈ r.languages ∧ refusal = .duplicate a.language := by
  cases call_effect r (.register a) with
  | registered _ hcall hopen hnew h => cases hcall; simp [h, hopen, hnew]
  | late _ _ hfrozen h => simp [h, hfrozen, eq_comm]
  | duplicate _ hcall hopen hold h => cases hcall; simp [h, hopen, hold, eq_comm]
  | freeze hcall _ => cases hcall

/-! ## Resolution -/

/-- What is shown of a path that no analyzer claims: its suffix, or all of it. -/
def shownPath (path : String) : String :=
  if (Path.ofText path).suffix = "" then path else (Path.ofText path).suffix

/-- The first of those that claim a path. -/
theorem find?_eq_head? (r : Registry) (path : String) :
    r.analyzers.find? (·.capabilities.supportsFile path) = (r.candidates path).head? :=
  List.head?_filter.symm

/-- **Resolving a path** takes the first of the candidates, and fails if there is none. -/
theorem resolve_eq (r : Registry) (path : String) : r.resolve path
    = match (r.candidates path).head? with
      | some a => .ok a
      | none => .error (.notSupported path (.noAnalyzer (shownPath path) r.extensions)) := by
  unfold resolve
  rw [find?_eq_head?]
  rfl

theorem resolve_eq_ok_iff : r.resolve path = .ok a ↔ (r.candidates path).head? = some a := by
  rw [resolve_eq]
  cases (r.candidates path).head? with
  | none => exact iff_of_false (by rintro ⟨⟩) (by rintro ⟨⟩)
  | some b =>
    exact ⟨fun h => congrArg some (Except.ok.inj h), fun h => congrArg _ (Option.some.inj h)⟩

theorem resolve_eq_error_iff {failure : Failure} : r.resolve path = .error failure
    ↔ r.candidates path = []
      ∧ failure = .notSupported path (.noAnalyzer (shownPath path) r.extensions) := by
  rw [resolve_eq, ← List.head?_eq_none_iff]
  cases (r.candidates path).head? with
  | none => exact ⟨fun h => ⟨rfl, (Except.error.inj h).symm⟩, fun h => congrArg _ h.2.symm⟩
  | some b => exact iff_of_false (by rintro ⟨⟩) (by rintro ⟨⟨⟩, -⟩)

theorem isSupported_eq_false_iff : r.isSupported path = false ↔ r.candidates path = [] := by
  rw [isSupported, candidates, List.any_eq_false, List.filter_eq_nil_iff]

/-- **What is resolved stays so** in a registry that comes after. -/
theorem Extends.resolve (h : Extends r r') (ha : r.resolve path = .ok a) :
    r'.resolve path = .ok a := by
  obtain ⟨more, hmore⟩ := h.analyzers
  rw [resolve_eq_ok_iff, candidates] at ha ⊢
  rw [← hmore, List.filter_append, List.head?_append, ha]
  rfl

/-- **Resolution is by the first match and stable.** However a registry came about, its languages
are different. A path goes to the first of its candidates, and is refused exactly if it has none,
which is if it is not supported. Its analyzer stays the same whatever calls follow, as those that
are there keep their places. A registration that is refused changes nothing, and a frozen registry
does not change any more. -/
theorem resolution_stable (calls : List Call) :
    let r := empty.run calls
    r.languages.Nodup
      ∧ (∀ path a, r.resolve path = .ok a ↔ (r.candidates path).head? = some a)
      ∧ (∀ path failure, r.resolve path = .error failure ↔ r.candidates path = []
          ∧ failure = .notSupported path (.noAnalyzer (shownPath path) r.extensions))
      ∧ (∀ path, r.candidates path = [] ↔ r.isSupported path = false)
      ∧ (∀ more, r.analyzers <+: (r.run more).analyzers
          ∧ ∀ path a, r.resolve path = .ok a → (r.run more).resolve path = .ok a)
      ∧ (∀ a refusal, (r.call (.register a)).2 = some refusal →
          (r.frozen = true ∨ a.language ∈ r.languages) ∧ (r.call (.register a)).1 = r)
      ∧ ∀ more, r.freeze.run more = r.freeze := by
  intro r
  refine ⟨nodup_run (r := empty) List.nodup_nil calls, fun _ _ => resolve_eq_ok_iff,
    fun _ _ => resolve_eq_error_iff, fun _ => isSupported_eq_false_iff.symm,
    fun more => ⟨(extends_run r more).analyzers, fun _ _ => (extends_run r more).resolve⟩,
    fun a refusal hrefused => ⟨?_, call_of_refused hrefused⟩,
    fun more => (extends_run r.freeze more).frozen rfl⟩
  exact (call_register_eq_some_iff.mp hrefused).imp And.left fun h => h.2.1

/-- The analyzers of C# and Java. -/
def twoCalls : List Call := [.register (.csharp .half), .register (.java .half)]

/-- A second analyzer of C# is refused, and one of templates comes too late; the files of C# go to
the first one as before. -/
theorem resolution_stable_late :
    let r := empty.run twoCalls
    r.resolve "A.cs" = .ok (.csharp .half)
      ∧ (r.call (.register (.csharp (.int 0)))).2 = some (.duplicate "csharp")
      ∧ (r.call (.register (.csharp (.int 0)))).1 = r
      ∧ (r.run [.register (.csharp (.int 0)), .freeze, .register (.razor .half)]).resolve "A.cs"
        = .ok (.csharp .half) := by
  intro r
  obtain ⟨-, hfirst, -, -, hmore, hrefused, -⟩ := resolution_stable twoCalls
  have hclaims : (Analyzer.csharp .half).capabilities.supportsFile "A.cs" = true := by
    decide +kernel
  have hresolve : r.resolve "A.cs" = .ok (.csharp .half) := by
    refine (hfirst _ _).mpr ?_
    show ([Analyzer.csharp .half, .java .half].filter
      fun a => a.capabilities.supportsFile "A.cs").head? = _
    rw [List.filter_cons, if_pos hclaims]
    rfl
  have hduplicate : (r.call (.register (.csharp (.int 0)))).2 = some (.duplicate "csharp") := rfl
  exact ⟨hresolve, hduplicate, (hrefused _ _ hduplicate).2, (hmore _).2 _ _ hresolve⟩

end SyntaxForest.Analysis.Registry
