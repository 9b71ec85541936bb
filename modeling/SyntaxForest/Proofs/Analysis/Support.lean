import SyntaxForest.Proofs.Analysis.Registry
import SyntaxForest.Proofs.Work

/-!
# Which files are supported

Whether a file is supported is asked three times: when files are looked for, by the suffixes of
all analyzers at once; when the registry is asked for the analyzer of a path; and by the analyzer
when it has the text. The three agree if analyzers declare their suffixes in small letters. A path
has an analyzer if and only if its suffix is one that files are looked for with
(`isSupported_iff`), and the analyzer finds fault with support if and only if it does not claim
the path (`analyse_eq_notSupported_iff`), whatever else may be wrong with the file.

An analyzer that declares a capital letter is asked for a suffix that it never claims, so the
hypothesis on letters cannot be left out.
-/

namespace SyntaxForest

/-! ## Sets in order -/

namespace Text

theorem mem_squeeze {l : List String} {s : String} : s ∈ squeeze l ↔ s ∈ l := by
  fun_induction squeeze l with
  | case1 a rest ih =>
    rw [ih, @List.mem_cons _ a (a :: rest)]
    exact (or_iff_right_of_imp fun h => h ▸ List.mem_cons_self).symm
  | case2 a b rest hne ih =>
    exact List.mem_cons.trans ((or_congr_right ih).trans List.mem_cons.symm)
  | case3 l => rfl

theorem mem_sortedSet {l : List String} {s : String} : s ∈ sortedSet l ↔ s ∈ l := by
  rw [sortedSet, mem_squeeze, sorted, List.mem_mergeSort]

end Text

namespace Analysis

/-! ## What analyses fail with -/

/-- **A failure of a file that is supported.** -/
def Failure.InFile (f : Failure) : Prop := ∀ path cause, f ≠ .notSupported path cause

theorem Failure.inFile_ofFault (path : String) (lines : LineIndex) (fault : Template.Fault) :
    (Failure.ofFault path lines fault).InFile := by
  intro path' cause h
  cases fault <;> cases h

theorem judge_failsWith {tolerance : Tolerance} {path whole : String} {src : Bytes} {root : Tree}
    {count bytes : Nat} :
    FailsWith Failure.InFile (judge tolerance path whole src root count bytes) := by
  unfold judge
  split
  · exact .ok
  · dsimp only
    split
    all_goals
      split
      · exact .ok
      · exact .error fun _ _ h => (nomatch h)

section

variable {parse : Template.Parse}
  (hparse : ∀ grammar src, FailsWith Failure.InFile (parse grammar src))
include hparse

theorem buildParsed_failsWith {grammar : String} {describe : Describe} {rootKind : String}
    {tolerance : Tolerance} {path : String} {src : Bytes} :
    FailsWith Failure.InFile
      (buildParsed parse grammar describe rootKind tolerance path src) := by
  refine (hparse grammar src).bind fun t => ?_
  split
  · exact .error fun _ _ h => (nomatch h)
  · exact judge_failsWith

theorem segmentNode_failsWith {src : Bytes} {lines : LineIndex} {s : Template.Segment} :
    FailsWith Failure.InFile (Template.segmentNode parse src lines s) := by
  have hcode : ∀ v, FailsWith Failure.InFile (Template.parseCode parse lines v) := fun v =>
    (hparse Template.codeGrammar v.text).bind fun _ => .ok
  exact (FailsWith.mapM hcode _).bind fun _ => .ok

theorem insertSegments_failsWith {s : Template.Source} {segments : List Template.Segment}
    {acc : Tree × Nat × Nat} :
    FailsWith Failure.InFile (Template.insertSegments parse s segments acc) := by
  induction segments generalizing acc with
  | nil => exact .ok
  | cons segment rest ih =>
    refine (segmentNode_failsWith hparse).bind fun node => ?_
    exact (FailsWith.mapError fun _ _ _ h => (nomatch h)).bind fun root => ih

theorem buildTemplate_failsWith {tolerance : Tolerance} {path : String} {src : Bytes} :
    FailsWith Failure.InFile (buildTemplate parse tolerance path src) := by
  refine (FailsWith.mapError (Failure.inFile_ofFault path _)).bind fun scanned => ?_
  refine FailsWith.bind ?_ fun merged => judge_failsWith
  exact (hparse _ _).bind fun t => insertSegments_failsWith hparse

/-- **Building a tree** has nothing to do with support. -/
theorem build_failsWith (a : Analyzer) (path : String) (src : Bytes) :
    FailsWith Failure.InFile (a.build parse path src) := by
  unfold Analyzer.build
  split
  · exact buildParsed_failsWith hparse
  · exact buildTemplate_failsWith hparse
  · exact .ok

/-- **An analyzer finds fault with support** if and only if it does not claim the path. -/
theorem analyse_eq_notSupported_iff (a : Analyzer) (moment : Moment) (path text shown : String)
    (cause : Unsupported) :
    a.analyse parse moment path text = .error (.notSupported shown cause)
      ↔ a.capabilities.supportsFile path = false ∧ shown = path
        ∧ cause = .wrongLanguage a.language := by
  unfold Analyzer.analyse
  cases hclaims : a.capabilities.supportsFile path with
  | false =>
    show Except.error (Failure.notSupported path (.wrongLanguage a.language)) = _ ↔ _
    rw [Except.error.injEq, Failure.notSupported.injEq, eq_comm, @eq_comm _ _ cause]
    exact (and_iff_right rfl).symm
  | true =>
    refine iff_of_false (fun h => ?_) fun h => nomatch h.1
    exact (build_failsWith hparse a path (Bytes.ofText text)).bind (fun built => .ok) _ h _ _ rfl

end

theorem parse_failsWith (g : Grammars) (grammar : String) (src : Bytes) :
    FailsWith Failure.InFile (g.parse grammar src) := by
  unfold Grammars.parse
  split
  · exact .error fun _ _ h => nomatch h
  · split
    · exact .ok
    · exact .error fun _ _ h => nomatch h

/-! ## Suffixes -/

/-- **Analyzers that declare their suffixes in small letters.** -/
def Registry.Small (r : Registry) : Prop :=
  ∀ a ∈ r.analyzers, ∀ x ∈ a.capabilities.fileExtensions, Text.lower x = x

namespace Registry

variable {r : Registry} {path : String}

/-- The analyzers of all dialects declare their suffixes in small letters. -/
theorem small_standard (tolerance : Tolerance) : (standard tolerance).Small := by
  have hcsharp : ∀ x ∈ [".cs"], Text.lower x = x := by decide
  have hjava : ∀ x ∈ [".java"], Text.lower x = x := by decide
  have hrazor : ∀ x ∈ [".cshtml", ".razor"], Text.lower x = x := by decide
  exact List.forall_mem_cons.mpr
    ⟨hcsharp, List.forall_mem_cons.mpr ⟨hjava, List.forall_mem_singleton.mpr hrazor⟩⟩

theorem mem_extensions {x : String} :
    x ∈ r.extensions ↔ ∃ a ∈ r.analyzers, x ∈ a.capabilities.fileExtensions := by
  rw [extensions, Text.mem_sortedSet, List.mem_flatMap]

/-- **A path is supported** if and only if its suffix is one that files are looked for with. -/
theorem isSupported_iff (h : r.Small) : r.isSupported path = true
    ↔ ∃ x ∈ r.extensions, Text.lower (Path.ofText path).suffix = Text.lower x := by
  simp only [isSupported, List.any_eq_true, Capabilities.supportsFile, List.contains_iff_mem,
    mem_extensions]
  constructor
  · rintro ⟨a, ha, hx⟩
    exact ⟨_, ⟨a, ha, hx⟩, (h a ha _ hx).symm⟩
  · rintro ⟨x, ⟨a, ha, hx⟩, hsuffix⟩
    refine ⟨a, ha, ?_⟩
    rwa [hsuffix, h a ha x hx]

/-- **A path that is supported** has an analyzer, and the analyzer claims it. -/
theorem exists_resolve (h : r.isSupported path = true) :
    ∃ a ∈ r.analyzers, r.resolve path = .ok a ∧ a.capabilities.supportsFile path = true := by
  cases hcandidates : r.candidates path with
  | nil => rw [isSupported_eq_false_iff.mpr hcandidates] at h; cases h
  | cons a rest =>
    have ha : a ∈ r.candidates path := hcandidates ▸ List.mem_cons_self
    obtain ⟨hin, hclaims⟩ := List.mem_filter.mp ha
    exact ⟨a, hin, resolve_eq_ok_iff.mpr (by rw [hcandidates]; rfl), hclaims⟩

end Registry

end Analysis

end SyntaxForest
