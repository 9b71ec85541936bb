import SyntaxForest.Batch.Work
import SyntaxForest.Proofs.Schedule.Settled

/-!
# What becomes of a file

What becomes of a file of a batch is a matter of the file alone: `outcome` says it
without the progress that files share. Work on a file reads sources, sets up parsers and
tells the journal, and none of this is seen in its outcome (`analysePath_comesTo`). The
moment of the analysis is seen in the stamp of the report only, and how files are run not
at all (`outcome_restamp`).

Statements about work are made relative to a kind of progress, which the work has to keep
(`ComesToIn`): in `ComesTo` the batch is not cancelled, and in `Settles` nothing is asked.
-/

namespace SyntaxForest.Batch

open Analysis

variable {α β : Type} {s : Setting}

/-! ## Work and its results -/

/-- One piece of work after another. -/
theorem run_bind {w : Work α} {f : α → Work β} {a : α} {p q : Progress}
    (h : w.run p = (.ok a, q)) : (w >>= f).run p = (f a).run q := by
  show (ExceptT.bindCont f (w.run p).1) (w.run p).2 = _
  rw [h]
  rfl

/-- Nothing comes after work that ends the batch. -/
theorem run_bind_error {w : Work α} {f : α → Work β} {fault : Fault} {p q : Progress}
    (h : w.run p = (.error fault, q)) : (w >>= f).run p = (.error fault, q) := by
  show (ExceptT.bindCont f (w.run p).1) (w.run p).2 = _
  rw [h]
  rfl

/-- Work whose value is only put into another form. -/
theorem run_bind_pure {w : Work α} {g : α → β} {p : Progress} :
    ((w >>= fun a => pure (g a)).run p).1 = (w.run p).1.map g := by
  rcases hrun : w.run p with ⟨_ | a, q⟩
  · rw [run_bind_error hrun]
    rfl
  · rw [run_bind hrun]
    rfl

/-- **What work comes to** in every progress of a kind, which it keeps. -/
def ComesToIn (I : Progress → Prop) (w : Work α) (r : Except Fault α) : Prop :=
  ∀ p : Progress, I p → ∃ p', w.run p = (r, p') ∧ I p'

/-- **A kind of progress** that is told neither by the journal nor by the parsers. -/
structure Indifferent (I : Progress → Prop) : Prop where
  entries : ∀ (p : Progress) entries, I p → I { p with entries }
  parsers : ∀ (p : Progress) parsers, I p → I { p with parsers }

namespace ComesToIn

variable {I : Progress → Prop}

theorem pure (a : α) : ComesToIn I (pure a) (.ok a) := fun p hp => ⟨p, rfl, hp⟩

theorem throw (fault : Fault) : ComesToIn I (throw fault : Work α) (.error fault) :=
  fun p hp => ⟨p, rfl, hp⟩

theorem bind {w : Work α} {f : α → Work β} {a : α} {r : Except Fault β}
    (h : ComesToIn I w (.ok a)) (h' : ComesToIn I (f a) r) : ComesToIn I (w >>= f) r := by
  intro p hp
  obtain ⟨p₁, hrun, hp₁⟩ := h p hp
  obtain ⟨p₂, hrest, hp₂⟩ := h' p₁ hp₁
  exact ⟨p₂, (run_bind hrun).trans hrest, hp₂⟩

theorem bind_error {w : Work α} {f : α → Work β} {fault : Fault}
    (h : ComesToIn I w (.error fault)) : ComesToIn I (w >>= f) (.error fault) := by
  intro p hp
  obtain ⟨p', hrun, hp'⟩ := h p hp
  exact ⟨p', run_bind_error hrun, hp'⟩

/-- Work that depends on what has happened, but not in what it comes to. -/
theorem get_bind {f : Progress → Work α} {r : Except Fault α}
    (h : ∀ p : Progress, I p → ComesToIn I (f p) r) : ComesToIn I (get >>= f) r :=
  fun p hp => h p hp p hp

/-- Work that changes what is shared and keeps the kind of progress. -/
theorem modify {f : Progress → Progress} (h : ∀ p : Progress, I p → I (f p)) :
    ComesToIn I (modify f : Work Unit) (.ok ()) :=
  fun p hp => ⟨f p, rfl, h p hp⟩

end ComesToIn

section

variable {I : Progress → Prop} (hI : Indifferent I)
include hI

theorem tell_comesToIn (e : Journal.Entry) : ComesToIn I (tell e) (.ok ()) :=
  .modify fun p hp => hI.entries p _ hp

theorem tellAll_comesToIn (entries : List Journal.Entry) :
    ComesToIn I (entries.forM tell) (.ok ()) := by
  induction entries with
  | nil => exact .pure ()
  | cons e rest ih => exact (tell_comesToIn hI e).bind ih

end

/-- The batch is not cancelled. -/
def Progress.Calm (p : Progress) : Prop := p.cancelled = false

theorem Progress.calm_indifferent : Indifferent Progress.Calm := ⟨fun _ _ hp => hp, fun _ _ hp => hp⟩

/-- **What work comes to**, whatever has happened before, in a batch that is not
cancelled. -/
def ComesTo (w : Work α) (r : Except Fault α) : Prop :=
  ∀ p : Progress, p.Calm → ∃ p', w.run p = (r, p') ∧ p'.Calm

namespace ComesTo

theorem pure (a : α) : ComesTo (pure a) (.ok a) := ComesToIn.pure a

theorem bind {w : Work α} {f : α → Work β} {a : α} {r : Except Fault β}
    (h : ComesTo w (.ok a)) (h' : ComesTo (f a) r) : ComesTo (w >>= f) r :=
  ComesToIn.bind h h'

/-- Work comes to one thing only. -/
theorem unique {w : Work α} {r r' : Except Fault α} (h : ComesTo w r) (h' : ComesTo w r') :
    r = r' := by
  obtain ⟨_, hrun, -⟩ := h {} rfl
  obtain ⟨_, hrun', -⟩ := h' {} rfl
  exact (Prod.mk.inj (hrun.symm.trans hrun')).1

end ComesTo

theorem tell_comesTo (e : Journal.Entry) : ComesTo (tell e) (.ok ()) :=
  tell_comesToIn Progress.calm_indifferent e

theorem tellAll_comesTo (entries : List Journal.Entry) :
    ComesTo (entries.forM tell) (.ok ()) :=
  tellAll_comesToIn Progress.calm_indifferent entries

/-- **What work comes to in any batch**, whether it is cancelled or not. -/
abbrev Settles (w : Work α) (r : Except Fault α) : Prop := ComesToIn (fun _ => True) w r

theorem indifferent_true : Indifferent fun _ => True := ⟨fun _ _ _ => trivial, fun _ _ _ => trivial⟩

/-! ## One file -/

/-- The setting lets batches run to their end. -/
structure Setting.Open (s : Setting) : Prop where
  room : 1 ≤ s.options.limit
  goes : ∀ reads, s.cancelledAt reads = false

/-- **What becomes of a file**, as such. -/
def outcome (s : Setting) (path : Path) : Except Fault FileOutcome :=
  match s.registry.resolve path.text with
  | .error f => .ok (.failed ⟨path.text, "NotSupportedError", f.message⟩)
  | .ok a =>
    match s.files.readText path with
    | .error (.file ⟨_, .nullCharacter⟩) => .error .nullCharacter
    | .error f => .ok (.failed ⟨path.text, "IOError", f.message⟩)
    | .ok text =>
      match a.analyse s.grammars.parse s.now path.text text with
      | .error f@(.unparsable ..) => .ok (.failed ⟨path.text, "ParseError", f.message⟩)
      | .error f => .error (.analysis f)
      | .ok (report, _) => .ok (.analysed report)

section

variable {I : Progress → Prop} (hI : Indifferent I)
include hI

theorem fail_comesToIn (path errorType message : String) :
    ComesToIn I (fail path errorType message) (.ok (.failed ⟨path, errorType, message⟩)) :=
  (tell_comesToIn hI _).bind (.pure _)

theorem setUpParsers_comesToIn (s : Setting) (grammars : List String) :
    ComesToIn I (setUpParsers s grammars) (.ok ()) := by
  induction grammars with
  | nil => exact .pure ()
  | cons g rest ih =>
    rw [setUpParsers]
    by_cases havailable : s.grammars.available g = true
    · rw [if_pos havailable]
      refine .get_bind fun p _ => ?_
      dsimp only
      split
      · exact .bind (.modify fun p hp => hI.parsers p _ hp) (.bind (tell_comesToIn hI _) ih)
      · exact ih
    · rw [if_neg havailable]
      exact .pure ()

theorem analyseText_comesToIn (s : Setting) (a : Analyzer) (path text : String) :
    ComesToIn I (analyseText s a path text)
      (match a.analyse s.grammars.parse s.now path text with
        | .error f@(.unparsable ..) => .ok (.failed ⟨path, "ParseError", f.message⟩)
        | .error f => .error (.analysis f)
        | .ok (report, _) => .ok (.analysed report)) := by
  refine .bind (setUpParsers_comesToIn hI s _) ?_
  cases a.analyse s.grammars.parse s.now path text with
  | ok built =>
    obtain ⟨report, built⟩ := built
    exact .bind (tellAll_comesToIn hI _) (.bind (tell_comesToIn hI _) (.pure _))
  | error f =>
    cases f with
    | unparsable p problem => exact fail_comesToIn hI _ _ _
    | _ => exact .throw _

/-- **What becomes of a file** is a matter of the file alone, if reading it keeps the kind of
progress. -/
theorem analysePath_comesToIn (hread : ∀ p : Progress, I p →
      I { p with cancelled := p.cancelled || s.cancelledAt p.reads, reads := p.reads + 1 })
    (path : Path) : ComesToIn I (analysePath s path) (outcome s path) := by
  unfold analysePath outcome
  cases s.registry.resolve path.text with
  | error f => exact fail_comesToIn hI _ _ _
  | ok a =>
    refine .bind (.modify hread) ?_
    cases s.files.readText path with
    | ok text => exact analyseText_comesToIn hI s a path.text text
    | error f =>
      cases f with
      | notText _ => exact fail_comesToIn hI _ _ _
      | file fault =>
        obtain ⟨p, trouble⟩ := fault
        cases trouble with
        | nullCharacter => exact .throw _
        | _ => exact fail_comesToIn hI _ _ _

end

theorem analysePath_comesTo (hopen : s.Open) (path : Path) :
    ComesTo (analysePath s path) (outcome s path) := by
  refine analysePath_comesToIn Progress.calm_indifferent (fun p hp => ?_) path
  show (p.cancelled || s.cancelledAt p.reads) = false
  rw [hopen.goes, Bool.or_false]
  exact hp

/-- A file has its outcome also where the batch is cancelled. -/
theorem analysePath_settles (s : Setting) (path : Path) :
    Settles (analysePath s path) (outcome s path) :=
  analysePath_comesToIn indifferent_true (fun _ _ => trivial) path

theorem analyseFile_settles (s : Setting) (i : Nat) (path : Path) :
    Settles (analyseFile s i path) ((outcome s path).map fun o => ⟨i, path.text, o⟩) := by
  have hpath := analysePath_settles s path
  cases ho : outcome s path with
  | ok o => exact .bind (ho ▸ hpath) (.pure _)
  | error fault => exact .bind_error (ho ▸ hpath)

/-! ## Settings that do not differ for a file -/

/-- **Settings that see the same files**: they may differ in how files are run, and when. -/
structure Setting.Alike (s s' : Setting) : Prop where
  files : s'.files = s.files
  grammars : s'.grammars = s.grammars
  registry : s'.registry = s.registry
  excluded : s'.options.excluded = s.options.excluded
  obstacle : s'.obstacle = s.obstacle

/-- The outcome with its report made at another moment. -/
def restampOutcome (now : Moment) : FileOutcome → FileOutcome
  | .analysed r => .analysed { r with generatedAt := now }
  | .failed f => .failed f

theorem analyse_restamp (a : Analyzer) (parse : Template.Parse) (moment now : Moment)
    (path text : String) :
    a.analyse parse now path text
      = (a.analyse parse moment path text).map fun (r, built) =>
          ({ r with generatedAt := now }, built) := by
  unfold Analyzer.analyse
  by_cases hsupports : a.capabilities.supportsFile path = true
  · rw [hsupports]
    cases a.build parse path (Bytes.ofText text) <;> rfl
  · rw [Bool.eq_false_iff.mpr hsupports]
    rfl

/-- **How and when files are run** is seen in the stamps only. -/
theorem outcome_restamp {s' : Setting} (h : s.Alike s') (path : Path) :
    outcome s' path = (outcome s path).map (restampOutcome s'.now) := by
  unfold outcome
  rw [h.registry, h.files, h.grammars]
  cases s.registry.resolve path.text with
  | error f => rfl
  | ok a =>
    cases s.files.readText path with
    | error f =>
      cases f with
      | notText _ => rfl
      | file fault =>
        obtain ⟨p, trouble⟩ := fault
        cases trouble <;> rfl
    | ok text =>
      dsimp only
      rw [analyse_restamp a s.grammars.parse s.now s'.now path.text text]
      cases a.analyse s.grammars.parse s.now path.text text with
      | ok built => rfl
      | error f => cases f <;> rfl

/-- A file that has an outcome has it in every setting that sees the same files. -/
theorem analysePath_restamp {s' : Setting} (h : s.Alike s') (hopen : s.Open) (hopen' : s'.Open)
    {path : Path} {o : FileOutcome} (ho : ComesTo (analysePath s path) (.ok o)) :
    ComesTo (analysePath s' path) (.ok (restampOutcome s'.now o)) := by
  have houtcome : outcome s' path = .ok (restampOutcome s'.now o) := by
    rw [outcome_restamp h, (analysePath_comesTo hopen path).unique ho]
    rfl
  exact houtcome ▸ analysePath_comesTo hopen' path

end SyntaxForest.Batch
