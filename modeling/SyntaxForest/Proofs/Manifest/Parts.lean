import SyntaxForest.Manifest.Project
import SyntaxForest.Proofs.Files.Pattern

/-!
# Parts of item lists that cannot be used

An item of an MSBuild project lists paths and patterns. A part of such a list that has pattern
characters may still be no pattern (`BadPattern`), or be one that leads to a name too long for a
file (`LongName`): the pieces in front of that name lead to where it is looked up
(`LongName.leads`). The sources of a project are not found if and only if one of its parts is of
this kind, and the first such part tells the fault (`fault?_sources_eq_some_iff`).
-/

namespace SyntaxForest

/-! ## Separators -/

namespace Text

theorem dropFront?_eq_some_iff {front s rest : List Char} :
    dropFront? front s = some rest ↔ s = front ++ rest := by
  induction front generalizing s with
  | nil => exact ⟨Option.some.inj, congrArg some⟩
  | cons a front ih =>
    cases s with
    | nil => exact iff_of_false (Option.some_ne_none _).symm (List.cons_ne_nil _ _).symm
    | cons b s =>
      rw [dropFront?, List.cons_append, List.cons.injEq, ← ih]
      split
      · next hab => exact ⟨fun h => ⟨hab.symm, h⟩, And.right⟩
      · next hab => exact iff_of_false (Option.some_ne_none _).symm fun h => hab h.1.symm

theorem splitAfter_ne_nil (first : Char) (more piece s : List Char) :
    splitAfter first more piece s ≠ [] := by
  fun_induction splitAfter first more piece s with
  | case1 => exact List.cons_ne_nil _ _
  | case2 => exact List.cons_ne_nil _ _
  | case3 _ _ _ _ ih => exact ih

/-- **A text is cut** if and only if it holds the separator. -/
theorem one_lt_length_splitAfter (first : Char) (more piece s : List Char) :
    1 < (splitAfter first more piece s).length ↔ first :: more <:+: s := by
  fun_induction splitAfter first more piece s with
  | case1 piece =>
    refine ⟨fun h => absurd h (Nat.lt_irrefl 1), fun h => ?_⟩
    exact absurd (List.infix_nil.mp h) (List.cons_ne_nil _ _)
  | case2 piece c rest left hfound =>
    refine iff_of_true ?_ ?_
    · rw [List.length_cons]
      exact Nat.succ_lt_succ (List.length_pos_iff.mpr (splitAfter_ne_nil _ _ _ _))
    · rw [dropFront?_eq_some_iff] at hfound
      exact hfound ▸ (List.prefix_append _ _).isInfix
  | case3 piece c rest hnone ih =>
    rw [ih, List.infix_cons_iff]
    refine ⟨Or.inr, fun h => h.resolve_left fun ⟨left, hleft⟩ => ?_⟩
    rw [dropFront?_eq_some_iff.mpr hleft.symm] at hnone
    cases hnone

end Text

/-! ## Patterns -/

/-- **A part of an item list that is no pattern**, though it has pattern characters. -/
inductive BadPattern (part : String) : PatternFault → Prop
  /-- It begins at the root. -/
  | notRelative (hpattern : PathPiece.isPattern part = true)
      (hroot : (Path.ofText part).isAbsolute = true) : BadPattern part .notRelative
  /-- One of its names holds two stars and something else. -/
  | starsInName {name} (hpattern : PathPiece.isPattern part = true)
      (hroot : (Path.ofText part).isAbsolute = false) (hname : name ∈ (Path.ofText part).names)
      (hmore : name ≠ "**") (hstars : "**".toList <:+: name.toList) :
      BadPattern part .starsInName

namespace PathPiece

theorem one_lt_length_split (name : String) :
    1 < (Text.split "**" name).length ↔ "**".toList <:+: name.toList := by
  show 1 < ((Text.splitAfter '*' ['*'] [] name.toList).map String.ofList).length ↔ _
  rw [List.length_map]
  exact Text.one_lt_length_splitAfter ..

theorem fault?_ofName (name : String) :
    fault? (ofName name) = if name ≠ "**" ∧ 1 < (Text.split "**" name).length then some .starsInName
      else none := by
  unfold ofName
  by_cases hstars : name = "**"
  · rw [if_pos hstars, if_neg fun h => h.1 hstars]
    rfl
  · rw [if_neg hstars]
    by_cases hcut : 1 < (Text.split "**" name).length
    · rw [if_pos hcut, if_pos ⟨hstars, hcut⟩]
      rfl
    · rw [if_neg hcut, if_neg (not_and_of_not_right _ hcut)]
      split <;> rfl

theorem fault?_ofName_eq_some_iff {name : String} {e : PatternFault} :
    fault? (ofName name) = some e ↔
      e = .starsInName ∧ name ≠ "**" ∧ "**".toList <:+: name.toList := by
  rw [fault?_ofName, ← one_lt_length_split]
  split
  · next h => exact ⟨fun heq => ⟨(Option.some.inj heq).symm, h⟩, fun heq => congrArg some heq.1.symm⟩
  · next h => exact iff_of_false nofun fun heq => h heq.2

theorem fault?_ofText (s : String) :
    fault? (ofText s) = if (Path.ofText s).isAbsolute then some .notRelative
      else (Path.ofText s).names.findSome? fun name => fault? (ofName name) := by
  unfold ofText
  dsimp only
  split
  · rfl
  · rw [← fault?_mapM]
    cases (Path.ofText s).names.mapM ofName <;> rfl

end PathPiece

/-- **A text with pattern characters is no pattern** for one of two reasons. -/
theorem badPattern_iff {part : String} {e : PatternFault} :
    BadPattern part e ↔ PathPiece.isPattern part = true ∧ PathPiece.ofText part = .error e := by
  rw [← fault?_eq_some_iff, PathPiece.fault?_ofText]
  constructor
  · rintro (⟨hpattern, hroot⟩ | ⟨hpattern, hroot, hname, hmore, hstars⟩)
    · exact ⟨hpattern, if_pos hroot⟩
    · refine ⟨hpattern, ?_⟩
      rw [if_neg (Bool.eq_false_iff.mp hroot)]
      have hfault := PathPiece.fault?_ofName_eq_some_iff.mpr ⟨rfl, hmore, hstars⟩
      -- all names that are no patterns have the same fault
      cases hfirst : (Path.ofText part).names.findSome? fun name => fault? (PathPiece.ofName name) with
      | none =>
        rw [List.findSome?_eq_none_iff.mp hfirst _ hname] at hfault
        cases hfault
      | some e =>
        obtain ⟨_, -, hfault'⟩ := List.exists_of_findSome?_eq_some hfirst
        rw [(PathPiece.fault?_ofName_eq_some_iff.mp hfault').1]
  · rintro ⟨hpattern, h⟩
    split at h
    · next hroot =>
      cases h
      exact .notRelative hpattern hroot
    · next hroot =>
      obtain ⟨name, hname, hfault⟩ := List.exists_of_findSome?_eq_some h
      obtain ⟨rfl, hmore, hstars⟩ := PathPiece.fault?_ofName_eq_some_iff.mp hfault
      exact .starsInName hpattern (Bool.eq_false_iff.mpr hroot) hname hmore hstars

/-! ## Names that are too long -/

/-- **A part of an item list that leads to a name too long for a file**, with the path of the
first such name that is come upon. -/
structure LongName (f : Files) (directory : Path) (part : String) (p : Path) : Prop where
  pattern : PathPiece.isPattern part = true
  start : f.isDirectory directory = true
  first : ∃ pieces before after, PathPiece.ofText part = .ok pieces
    ∧ f.select pieces directory = before ++ .error p :: after ∧ ∀ r ∈ before, r.isOk

/-- **A part of an item list that cannot be used**, and the fault that it makes. -/
inductive Manifest.BadPart (f : Files) (directory : Path) (part : String) :
    Manifest.Fault → Prop
  | pattern {e} (h : BadPattern part e) : BadPart f directory part (.badPattern e)
  | longName {p} (h : LongName f directory part p) : BadPart f directory part (.nameTooLong p)

variable {f : Files} {directory : Path} {part : String} {p : Path}

/-- **Where a part leads to a name too long**, the pieces in front of the name lead to it. -/
theorem LongName.leads (h : LongName f directory part p) : ∃ pieces n left reached,
    PathPiece.ofText part = .ok pieces
      ∧ f.Leads pieces directory (.exactly n :: left) reached ∧ p = reached.inner [n]
      ∧ f.find? p = .error .nameTooLong := by
  obtain ⟨pieces, before, after, hpieces, hselect, -⟩ := h.first
  have hin : .error p ∈ f.select pieces directory := by
    rw [hselect]
    exact List.mem_append_right _ List.mem_cons_self
  obtain ⟨n, left, reached, hleads⟩ := Files.error_mem_select_iff.mp hin
  exact ⟨pieces, n, left, reached, hpieces, hleads⟩

/-- A part leads to a name too long if and only if its pieces come upon one. -/
theorem longName_iff (hpattern : PathPiece.isPattern part = true) {pieces : List PathPiece}
    (hpieces : PathPiece.ofText part = .ok pieces) (hstart : f.isDirectory directory = true) :
    LongName f directory part p ↔ (f.select pieces directory).mapM id = .error p := by
  rw [← fault?_eq_some_iff, fault?_mapM, List.findSome?_eq_some_iff]
  have hok : ∀ r : Except Path Path, fault? (id r) = none ↔ r.isOk := fun r => by
    cases r with
    | ok _ => exact iff_of_true rfl rfl
    | error _ => exact iff_of_false (Option.some_ne_none _) Bool.false_ne_true
  constructor
  · rintro ⟨-, -, pieces', before, after, hpieces', hselect, hbefore⟩
    obtain rfl := Except.ok.inj (hpieces.symm.trans hpieces')
    exact ⟨before, .error p, after, hselect, rfl, fun r hr => (hok r).mpr (hbefore r hr)⟩
  · rintro ⟨before, r, after, hselect, hr, hbefore⟩
    obtain rfl := fault?_eq_some_iff.mp hr
    exact ⟨hpattern, hstart, pieces, before, after, hpieces, hselect,
      fun r hr => (hok r).mp (hbefore r hr)⟩

theorem matching_eq_pattern_iff {e : PatternFault} :
    f.matching directory part = .error (.pattern e) ↔ PathPiece.ofText part = .error e := by
  unfold Files.matching
  cases PathPiece.ofText part with
  | error e' =>
    rw [Except.error.injEq, Except.error.injEq, MatchFault.pattern.injEq]
  | ok pieces =>
    refine iff_of_false (fun h => ?_) nofun
    dsimp only at h
    split at h
    · split at h <;> cases h
    · cases h

theorem matching_eq_nameTooLong_iff (hpattern : PathPiece.isPattern part = true) :
    f.matching directory part = .error (.nameTooLong p) ↔ LongName f directory part p := by
  unfold Files.matching
  cases hpieces : PathPiece.ofText part with
  | error e =>
    refine iff_of_false (fun h => by cases h) fun hlong => ?_
    obtain ⟨_, _, _, hpieces', -⟩ := hlong.first
    cases hpieces.symm.trans hpieces'
  | ok pieces =>
    dsimp only
    by_cases hstart : f.isDirectory directory = true
    · rw [if_pos hstart, longName_iff hpattern hpieces hstart]
      cases (f.select pieces directory).mapM id with
      | error p' => rw [Except.error.injEq, Except.error.injEq, MatchFault.nameTooLong.injEq]
      | ok found => exact iff_of_false nofun nofun
    · rw [if_neg hstart]
      exact iff_of_false nofun fun hlong => hstart hlong.start

/-! ## Projects -/

namespace Manifest

namespace MSBuild

/-- The parts of an item's lists, in the order in which they are read. -/
def itemParts (item : Xml.Element) : List String :=
  splitItems ((item.get? "Remove").getD "") ++ splitItems ((item.get? "Include").getD "")

/-- **The parts of all item lists of a project**, in the order in which they are read. -/
def projectParts (root : Xml.Element) : List String :=
  (itemKinds.flatMap root.named).flatMap itemParts

theorem expand_eq_error_iff {fault : Fault} :
    expand f directory part = .error fault ↔ BadPart f directory part fault := by
  unfold expand
  by_cases hpattern : PathPiece.isPattern part = true
  · rw [if_pos hpattern, ← fault?_eq_some_iff, fault?_mapError, Option.map_eq_some_iff]
    simp only [fault?_eq_some_iff]
    constructor
    · rintro ⟨e | p, hfault, rfl⟩
      · exact .pattern (badPattern_iff.mpr ⟨hpattern, matching_eq_pattern_iff.mp hfault⟩)
      · exact .longName ((matching_eq_nameTooLong_iff hpattern).mp hfault)
    · rintro (hbad | hlong)
      · exact ⟨_, matching_eq_pattern_iff.mpr (badPattern_iff.mp hbad).2, rfl⟩
      · exact ⟨_, (matching_eq_nameTooLong_iff hpattern).mpr hlong, rfl⟩
  · rw [if_neg hpattern]
    constructor
    · intro h
      cases h
    · rintro (hbad | hlong)
      · exact absurd (badPattern_iff.mp hbad).1 hpattern
      · exact absurd hlong.pattern hpattern

theorem fault?_itemPaths (item : Xml.Element) (key : String) :
    fault? (itemPaths f directory item key)
      = (splitItems ((item.get? key).getD "")).findSome?
          fun part => fault? (expand f directory part) := by
  rw [itemPaths, fault?_map, fault?_mapM]

theorem fault?_sources (supported excluded : List String) (root : Xml.Element) :
    fault? (sources f directory supported excluded root)
      = (projectParts root).findSome? fun part => fault? (expand f directory part) := by
  rw [sources, fault?_map, itemsOf, projectParts, findSome?_flatMap]
  refine fault?_foldlM (fun items item => ?_) _ _
  unfold Items.add itemParts
  rw [List.findSome?_append, ← fault?_itemPaths, ← fault?_itemPaths]
  refine fault?_bind _ _ fun removed => ?_
  rw [fault?_bind _ _ (o := none) fun _ => rfl, Option.or_none]

/-- **The sources of a project** are not found if and only if a part of an item list cannot be
used; the first such part tells the fault. -/
theorem fault?_sources_eq_some_iff {supported excluded : List String} {root : Xml.Element}
    {fault : Fault} : fault? (sources f directory supported excluded root) = some fault
      ↔ ∃ before part after, projectParts root = before ++ part :: after
        ∧ (∀ p ∈ before, ∀ fault, ¬ BadPart f directory p fault)
        ∧ BadPart f directory part fault := by
  have hgood : ∀ part, fault? (expand f directory part) = none
      ↔ ∀ fault, ¬ BadPart f directory part fault := fun part => by
    rw [Option.eq_none_iff_forall_ne_some]
    exact forall_congr' fun fault => not_congr (fault?_eq_some_iff.trans expand_eq_error_iff)
  simp only [fault?_sources, List.findSome?_eq_some_iff, fault?_eq_some_iff, hgood,
    expand_eq_error_iff]
  refine exists_congr fun before => exists_congr fun part => exists_congr fun after => ?_
  exact and_congr_right fun _ => and_comm

end MSBuild

end Manifest

end SyntaxForest
