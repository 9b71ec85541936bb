import SyntaxForest.Analysis.Registry
import SyntaxForest.Proofs.Rounding
import SyntaxForest.Proofs.Work
import SyntaxForest.Settings.Basic

/-!
# Settings that are accepted

A dictionary of any values is read as settings section by section. What is read can be used
without another check (`Accepted`): a batch can be run with it, and the analyzers can be set up.
Each section keeps this, and the usual settings have it to begin with. If the dictionary is not
read, a fault says what is wrong with it.

There is one exception. A section that counts and is no dictionary has no entries to look for, and
the reader breaks off without a fault of its own. This happens exactly at the first such section,
if the variables are set and the sections before it are read (`ofValue_closed`).
-/

namespace SyntaxForest

open Number

namespace Settings

variable {env : Environment} {s s' : Settings} {name : String} {entries data : List (Value × Value)}

/-! ## What is accepted -/

/-- A number from nothing to one. -/
def IsShare (p : Place) : Prop := ∃ units : Nat, units ≤ Place.one ∧ p = .at units

/-- **Settings that are accepted** by whoever runs a batch and sets up the analyzers. -/
structure Accepted (s : Settings) : Prop where
  /-- A limit is positive. -/
  limit : ∀ n ∈ s.limit, 1 ≤ n
  /-- The tolerance is a number from nothing to one. -/
  tolerance : IsShare s.tolerance.place
  /-- The choices for a batch can be made of them, by the name of the mode. -/
  options : ∀ processors, 1 ≤ processors →
    Batch.Options.make processors (some (.text s.mode.text)) s.limit (some s.excluded)
      = .ok (s.options processors)
  /-- The analyzers can be registered with the tolerance, which is in their range. -/
  analyzers : (Tolerance.real s.tolerance).inRange = true
    ∧ Analysis.Registry.empty.registerAll (Analysis.Registry.dialects (.real s.tolerance))
      = (.standard (.real s.tolerance), none)

theorem isShare_ofRatio {num den : Nat} (hden : 0 < den) (h : num ≤ den) :
    IsShare (Binary64.ofRatio false num den).place :=
  Binary64.ofRatio_place hden h

/-- **The range of tolerances** is that of shares: infinities and nan are not in it. -/
theorem inRange_iff {t : Tolerance} : t.inRange = true ↔ IsShare t.place := by
  unfold Tolerance.inRange IsShare
  rw [Place.ofInt_eq, Place.ofInt_eq, Int.zero_mul, Int.one_mul]
  generalize Place.one = one
  cases t.place with
  | «at» units =>
    rw [Bool.and_eq_true]
    show decide (0 ≤ units) = true ∧ decide (units ≤ one) = true ↔ _
    rw [decide_eq_true_iff, decide_eq_true_iff]
    constructor
    · rintro ⟨hlow, hhigh⟩
      exact ⟨units.toNat, by omega, congrArg _ (Int.toNat_of_nonneg hlow).symm⟩
    · rintro ⟨n, hn, hunits⟩
      obtain rfl := Place.at.inj hunits
      exact ⟨Int.natCast_nonneg n, Int.ofNat_le.mpr hn⟩
  | _ => simp [Place.le]

/-- The integers in the range are nothing and one, and doubles stand for both. -/
theorem isShare_ofInt {i : Int} (h : IsShare (Place.ofInt i)) :
    IsShare (Binary64.ofInt i).place := by
  have hrange : 0 ≤ i ∧ i ≤ 1 := by
    obtain ⟨units, hunits, heq⟩ := h
    have hpos : 0 < Place.one := Place.pow_le_one (e := 0) (Nat.zero_le _)
    rw [Place.ofInt_eq] at heq
    generalize Place.one = one at *
    have hplace := Place.at.inj heq
    constructor
    · exact Int.nonneg_of_mul_nonneg_left (hplace ▸ Int.natCast_nonneg units)
        (Int.natCast_pos.mpr hpos)
    · refine Int.le_of_mul_le_mul_right (a := (one : Int)) ?_ (Int.natCast_pos.mpr hpos)
      rw [hplace, Int.one_mul]
      exact Int.ofNat_le.mpr hunits
  have hsign : decide (i < 0) = false := decide_eq_false (by omega)
  rw [Binary64.ofInt, hsign]
  exact isShare_ofRatio Nat.one_pos (by omega)

theorem accepted_of (hlimit : ∀ n ∈ s.limit, 1 ≤ n) (htolerance : IsShare s.tolerance.place) :
    Accepted s := by
  refine ⟨hlimit, htolerance, fun processors hprocessors => ?_, inRange_iff.mpr htolerance, rfl⟩
  have hmode : Batch.Options.readMode (some (.text s.mode.text)) = .ok s.mode := by
    cases s.mode <;> rfl
  have hroom : ¬ s.limit.getD processors < 1 := by
    cases h : s.limit with
    | none => exact Int.not_lt.mpr (Int.ofNat_le.mpr hprocessors)
    | some n => exact Int.not_lt.mpr (hlimit n h)
  unfold Batch.Options.make
  rw [hmode]
  dsimp only [bind, Except.bind]
  rw [if_neg hroom]
  rfl

/-- The usual settings. -/
theorem accepted_usual : Accepted {} :=
  have h : IsShare (Binary64.ofRatio false 1 2).place :=
    isShare_ofRatio Nat.two_pos (by decide)
  accepted_of (fun _ hn => absurd hn (Option.not_mem_none _)) h

/-! ## Sections -/

theorem limit_of_readLimit {v : Value} {limit : Option Int} (h : readLimit v = .ok limit) :
    ∀ n ∈ limit, 1 ≤ n := by
  unfold readLimit at h
  split at h
  · obtain rfl := Except.ok.inj h
    exact fun _ hn => absurd hn (Option.not_mem_none _)
  · split at h
    · cases h
    · next hpos =>
      obtain rfl := Except.ok.inj h
      rintro n ⟨⟩
      omega
  · cases h

theorem isShare_of_readTolerance {v : Value} {x : Binary64} (h : readTolerance v = .ok x) :
    IsShare x.place := by
  unfold readTolerance at h
  dsimp only at h
  split at h
  · cases h
  · next t ht =>
    split at h
    · cases h
    · next hrange =>
      rw [Bool.not_eq_true', Bool.not_eq_false] at hrange
      have hshare := inRange_iff.mp hrange
      cases t with
      | real y => exact Except.ok.inj h ▸ hshare
      | int i => exact Except.ok.inj h ▸ isShare_ofInt hshare

theorem accepted_withProcessing (hs : Accepted s) (h : withProcessing s entries = .ok s') :
    Accepted s' := by
  unfold withProcessing at h
  obtain ⟨given, -, h⟩ := exists_of_bind_eq_ok h
  obtain ⟨limit, -, h⟩ := exists_of_bind_eq_ok h
  split at h
  · cases h
  · obtain ⟨limit', hread, h⟩ := exists_of_bind_eq_ok h
    obtain rfl := Except.ok.inj h
    exact accepted_of (limit_of_readLimit hread) hs.tolerance

theorem accepted_withParsing (hs : Accepted s) (h : withParsing s entries = .ok s') :
    Accepted s' := by
  unfold withParsing at h
  obtain ⟨x, hread, h⟩ := exists_of_bind_eq_ok h
  obtain rfl := Except.ok.inj h
  exact accepted_of hs.limit (isShare_of_readTolerance hread)

theorem accepted_withDiscovery (hs : Accepted s) (h : withDiscovery s entries = .ok s') :
    Accepted s' := by
  unfold withDiscovery at h
  split at h
  · exact Except.ok.inj h ▸ hs
  · obtain ⟨texts, -, h⟩ := exists_of_bind_eq_ok h
    obtain rfl := Except.ok.inj h
    exact accepted_of hs.limit hs.tolerance
  · cases h

/-! ## Faults of sections -/

theorem append_ne_empty {a b : String} (h : a ≠ "") : a ++ b ≠ "" :=
  fun heq => h (String.append_eq_empty_iff.mp heq).1

theorem longMessage_ne_empty : Value.longMessage ≠ "" :=
  append_ne_empty (append_ne_empty (append_ne_empty (by decide)))

theorem worded_ne_empty {v : Value} {message : String} (h : message ≠ "") :
    v.worded message ≠ "" := by
  unfold Value.worded
  split
  · exact longMessage_ne_empty
  · exact h

theorem integerFault_message_ne_empty {fault : IntegerFault} : fault.message ≠ "" := by
  cases fault with
  | notDigits base text => exact append_ne_empty (append_ne_empty (append_ne_empty (by decide)))
  | tooMany count =>
    exact append_ne_empty (append_ne_empty (append_ne_empty (append_ne_empty (by decide))))

/-- **A fault has a wording** if it is not that of a section that is no dictionary. -/
theorem Fault.message_eq_empty_iff {fault : Fault} :
    fault.message = "" ↔ fault = .notSection := by
  cases fault with
  | notSection => exact iff_of_true rfl rfl
  | unsetVariable name => exact iff_of_false (append_ne_empty (by decide)) (by rintro ⟨⟩)
  | badMode given =>
    exact iff_of_false (append_ne_empty (append_ne_empty (by decide))) (by rintro ⟨⟩)
  | notInteger fault => exact iff_of_false integerFault_message_ne_empty (by rintro ⟨⟩)
  | badLimit given | notNumber given | outOfRange given | notList given =>
    exact iff_of_false (worded_ne_empty (append_ne_empty (by decide))) (by rintro ⟨⟩)
  | notWritten => exact iff_of_false longMessage_ne_empty (by rintro ⟨⟩)

theorem written_told {v : Value} : FailsWith (· ≠ .notSection) (written v) := by
  unfold written
  split
  · exact .error (by rintro ⟨⟩)
  · exact .ok

theorem readLimit_told {v : Value} : FailsWith (· ≠ .notSection) (readLimit v) := by
  unfold readLimit
  split
  · exact .ok
  · split
    · exact .error (by rintro ⟨⟩)
    · exact .ok
  · exact .error (by rintro ⟨⟩)

theorem readTolerance_told {v : Value} : FailsWith (· ≠ .notSection) (readTolerance v) := by
  unfold readTolerance
  dsimp only
  split
  · exact .error (by rintro ⟨⟩)
  · next t _ =>
    split
    · exact .error (by rintro ⟨⟩)
    · cases t <;> exact .ok

theorem withProcessing_told : FailsWith (· ≠ .notSection) (withProcessing s entries) := by
  unfold withProcessing
  refine written_told.bind fun given => ?_
  refine (FailsWith.mapError fun _ => by rintro ⟨⟩).bind fun limit => ?_
  split
  · exact .error (by rintro ⟨⟩)
  · exact readLimit_told.bind fun _ => .ok

theorem withParsing_told : FailsWith (· ≠ .notSection) (withParsing s entries) :=
  readTolerance_told.bind fun _ => .ok

theorem withDiscovery_told : FailsWith (· ≠ .notSection) (withDiscovery s entries) := by
  unfold withDiscovery
  split
  · exact .ok
  · exact (FailsWith.mapM (fun _ => written_told) _).bind fun _ => .ok
  · exact .error (by rintro ⟨⟩)

/-! ## One section -/

/-- What reads a section. -/
abbrev Reader := Settings → List (Value × Value) → Except Fault Settings

/-- What reads a section keeps settings accepted and says what is wrong. -/
structure Reader.Sound (read : Reader) : Prop where
  accepted : ∀ s s' entries, Accepted s → read s entries = .ok s' → Accepted s'
  told : ∀ s entries, FailsWith (· ≠ .notSection) (read s entries)

variable {read : Reader}

/-- **A section that is no dictionary**, though it counts. -/
def NoDictionary (name : String) (data : List (Value × Value)) : Prop :=
  ∃ v, Value.field name data = some v ∧ v.truthy = true ∧ ∀ entries, v ≠ .dict entries

theorem entriesOf_eq_error_iff {fault : Fault} :
    entriesOf name data = .error fault ↔ fault = .notSection ∧ NoDictionary name data := by
  unfold entriesOf NoDictionary
  cases Value.field name data with
  | none =>
    refine iff_of_false (by rintro ⟨⟩) ?_
    rintro ⟨-, _, ⟨⟩, -⟩
  | some v =>
    dsimp only
    cases htruthy : v.truthy with
    | false =>
      refine iff_of_false (by rintro ⟨⟩) ?_
      rintro ⟨-, w, ⟨⟩, h, -⟩
      cases htruthy.symm.trans h
    | true =>
      cases v with
      | dict entries =>
        refine iff_of_false (by rintro ⟨⟩) ?_
        rintro ⟨-, _, ⟨⟩, -, hno⟩
        exact hno entries rfl
      | _ =>
        constructor
        · intro h
          exact ⟨(Except.error.inj h).symm, _, rfl, htruthy, by rintro _ ⟨⟩⟩
        · rintro ⟨rfl, -⟩
          rfl

theorem accepted_withSection (hread : read.Sound) (hs : Accepted s)
    (h : withSection name read data s = .ok s') : Accepted s' := by
  unfold withSection at h
  obtain ⟨entries?, -, h⟩ := exists_of_bind_eq_ok h
  cases entries? with
  | none => exact Except.ok.inj h ▸ hs
  | some entries => exact hread.accepted s s' entries hs h

theorem withSection_eq_notSection_iff (hread : read.Sound) :
    withSection name read data s = .error .notSection ↔ NoDictionary name data := by
  unfold withSection
  cases hentries : entriesOf name data with
  | error fault =>
    obtain ⟨rfl, h⟩ := entriesOf_eq_error_iff.mp hentries
    exact iff_of_true rfl h
  | ok entries? =>
    refine iff_of_false (fun h => ?_) fun h => ?_
    · cases entries? with
      | none => cases h
      | some entries => exact hread.told s entries _ h rfl
    · have herror := entriesOf_eq_error_iff.mpr ⟨rfl, h⟩
      rw [hentries] at herror
      cases herror

/-! ## All sections -/

/-- The settings with those of sections, one after another. -/
def withSections (data : List (Value × Value)) (sections : List (String × Reader))
    (s : Settings) : Except Fault Settings :=
  sections.foldlM (fun s r => withSection r.1 r.2 data s) s

/-- The sections with what reads them, in the order in which they are read. -/
def readers : List (String × Reader) :=
  [("processing", withProcessing), ("parsing", withParsing), ("discovery", withDiscovery)]

theorem sound_of_mem_readers {r : String × Reader} (h : r ∈ readers) : r.2.Sound := by
  simp only [readers, List.mem_cons, List.not_mem_nil, or_false] at h
  rcases h with rfl | rfl | rfl
  · exact ⟨fun _ _ _ => accepted_withProcessing, fun _ _ => withProcessing_told⟩
  · exact ⟨fun _ _ _ => accepted_withParsing, fun _ _ => withParsing_told⟩
  · exact ⟨fun _ _ _ => accepted_withDiscovery, fun _ _ => withDiscovery_told⟩

theorem ofValue_dict : ofValue env (.dict data) =
    (substituteEntries env data).mapError .unsetVariable >>= (withSections · readers {}) := by
  unfold ofValue
  rw [substitute]
  cases substituteEntries env data with
  | error name => rfl
  | ok entries =>
    show (do
      let s ← withSection "processing" withProcessing entries {}
      let s ← withSection "parsing" withParsing entries s
      withSection "discovery" withDiscovery entries s) = withSections entries readers {}
    simp only [withSections, readers, List.foldlM_cons, List.foldlM_nil, bind_pure]

theorem accepted_withSections {sections : List (String × Reader)}
    (hsections : ∀ r ∈ sections, r.2.Sound) (hs : Accepted s)
    (h : withSections data sections s = .ok s') : Accepted s' :=
  foldlM_invariant (fun r hr _ _ hb h => accepted_withSection (hsections r hr) hb h) hs h

/-- The first section that is not read decides whether the fault says what is wrong. -/
theorem withSections_eq_notSection_iff {sections : List (String × Reader)}
    (hsections : ∀ r ∈ sections, r.2.Sound) :
    withSections data sections s = .error .notSection
      ↔ ∃ before name read after s', sections = before ++ (name, read) :: after
        ∧ withSections data before s = .ok s' ∧ NoDictionary name data := by
  have hsound : ∀ {before name read after}, sections = before ++ (name, read) :: after →
      Reader.Sound read := fun h =>
    hsections (_, _) (h ▸ List.mem_append_right _ List.mem_cons_self)
  constructor
  · intro h
    obtain ⟨before, ⟨name, read⟩, after, s', hsplit, hbefore, hfault⟩ :=
      foldlM_eq_error_iff.mp h
    exact ⟨before, name, read, after, s', hsplit, hbefore,
      (withSection_eq_notSection_iff (hsound hsplit)).mp hfault⟩
  · rintro ⟨before, name, read, after, s', hsplit, hbefore, hno⟩
    exact foldlM_eq_error_iff.mpr ⟨before, (name, read), after, s', hsplit, hbefore,
      (withSection_eq_notSection_iff (hsound hsplit)).mpr hno⟩

/-- **Where the reader breaks off**: the variables are set, and the first section that is not
read is no dictionary. -/
def BreaksOff (env : Environment) (data : List (Value × Value)) : Prop :=
  ∃ entries, substituteEntries env data = .ok entries ∧
    ∃ before name read after s, readers = before ++ (name, read) :: after
      ∧ withSections entries before {} = .ok s ∧ NoDictionary name entries

theorem ofValue_eq_notSection_iff :
    ofValue env (.dict data) = .error .notSection ↔ BreaksOff env data := by
  rw [ofValue_dict, BreaksOff]
  cases substituteEntries env data with
  | error name =>
    refine iff_of_false (by rintro ⟨⟩) ?_
    rintro ⟨_, ⟨⟩, -⟩
  | ok entries =>
    refine (withSections_eq_notSection_iff (fun _ => sound_of_mem_readers)).trans ?_
    constructor
    · intro h
      exact ⟨entries, rfl, h⟩
    · rintro ⟨_, ⟨⟩, h⟩
      exact h

theorem accepted_ofValue (h : ofValue env (.dict data) = .ok s) : Accepted s := by
  rw [ofValue_dict] at h
  obtain ⟨entries, -, h⟩ := exists_of_bind_eq_ok h
  exact accepted_withSections (fun _ => sound_of_mem_readers) accepted_usual h

/-- **Reading settings from any dictionary.** Settings that are read are accepted, and a fault
says what is wrong, unless the reader breaks off at a section that is no dictionary. -/
theorem ofValue_closed (env : Environment) (data : List (Value × Value)) :
    match ofValue env (.dict data) with
    | .ok s => Accepted s ∧ ¬ BreaksOff env data
    | .error fault => fault.message = "" ↔ BreaksOff env data := by
  have hbreaks := @ofValue_eq_notSection_iff env data
  cases h : ofValue env (.dict data) with
  | ok s =>
    rw [h] at hbreaks
    refine ⟨accepted_ofValue h, fun hno => ?_⟩
    cases hbreaks.mpr hno
  | error fault =>
    rw [h, Except.error.injEq] at hbreaks
    exact Fault.message_eq_empty_iff.trans hbreaks

/-- A list in the place of a section: nothing is read, and nothing is said. -/
theorem ofValue_breaks_off :
    ¬ ((∃ s, ofValue [] (.dict [(.text "processing", .list [.int 1])]) = .ok s ∧ Accepted s)
      ∨ ∃ fault, ofValue [] (.dict [(.text "processing", .list [.int 1])]) = .error fault
        ∧ fault.message ≠ "") := by
  have hfield : Value.field "processing" [(.text "processing", .list [.int 1])]
      = some (.list [.int 1]) := by
    rw [Value.field, Value.lookup, List.find?_cons, Value.same]
    rfl
  have h : ofValue [] (.dict [(.text "processing", .list [.int 1])]) = .error .notSection :=
    ofValue_eq_notSection_iff.mpr ⟨_, rfl, [], "processing", withProcessing, _, {}, rfl, rfl,
      .list [.int 1], hfield, rfl, by rintro _ ⟨⟩⟩
  rw [h]
  rintro (⟨s, hs, -⟩ | ⟨fault, hfault, htold⟩)
  · cases hs
  · cases hfault
    exact htold rfl

end Settings

end SyntaxForest
