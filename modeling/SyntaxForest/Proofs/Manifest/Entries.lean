import SyntaxForest.Manifest.Solution
import SyntaxForest.Proofs.Manifest.Items
import SyntaxForest.Proofs.Text.Decoding
import SyntaxForest.Proofs.Text.Joining

/-!
# Solutions that are read back

A solution is written as lines, some of which are entries: an entry begins its line, its fields
stand between quotes, and there may be blanks of any kind around its signs – line ends too, which
also the fields may hold. What is read are the entries, in their order (`entries_textOf`). None is
skipped, because the signs end the fields, and none is made up: what does not begin a line is no
entry, and an entry is looked for only behind the end of the last.

So the members of a solution are its entries whose paths are those of projects
(`readSolution_written`).
-/

namespace SyntaxForest.Manifest.Solution

/-! ## Writing -/

/-- Blanks of any kind, or none. -/
structure Gap where
  chars : List Char
  blank : chars.all Text.isBlank = true

/-- The blanks around the signs of an entry. -/
structure Gaps where
  beforeEquals : Gap
  beforeName : Gap
  beforeComma : Gap
  beforePath : Gap
  beforeLastComma : Gap
  beforeGuid : Gap

namespace WrittenEntry

/-- The fields of an entry hold no sign that ends them. -/
structure Proper (e : WrittenEntry) : Prop where
  type_ne_nil : e.type ≠ []
  type : '\x7d' ∉ e.type
  name : '"' ∉ e.name
  path : '"' ∉ e.path
  guid_ne_nil : e.guid ≠ []
  guid : '\x7d' ∉ e.guid

/-- The text of an entry in front of another text. -/
def writtenBefore (e : WrittenEntry) (g : Gaps) (rest : List Char) : List Char :=
  "Project(\"".toList ++ '\x7b' :: (e.type ++ '\x7d' :: ("\")".toList
    ++ (g.beforeEquals.chars ++ '=' :: (g.beforeName.chars
    ++ '"' :: (e.name ++ '"' :: (g.beforeComma.chars ++ ',' :: (g.beforePath.chars
    ++ '"' :: (e.path ++ '"' :: (g.beforeLastComma.chars ++ ',' :: (g.beforeGuid.chars
    ++ '"' :: '\x7b' :: (e.guid ++ '\x7d' :: '"' :: rest)))))))))))

end WrittenEntry

/-! ## Reading an entry -/

variable {cs rest : List Char} {c : Char}

theorem given?_append (text : String) (rest : List Char) :
    given? text (text.toList ++ rest) = some rest :=
  Text.dropFront?_eq_some_iff.mpr rfl

theorem given?_quote (rest : List Char) : given? "\"" ('"' :: rest) = some rest :=
  given?_append "\"" rest

theorem field?_append (h : c ∉ cs) : field? c (cs ++ c :: rest) = some (cs, rest) := by
  have hall : ∀ d ∈ cs, (d != c) = true := fun d hd => bne_iff_ne.mpr fun heq => h (heq ▸ hd)
  have hclose : ¬ (c != c) = true := by simp
  unfold field?
  rw [List.dropWhile_append_of_pos hall, List.dropWhile_cons, if_neg hclose,
    List.takeWhile_append_of_pos hall, List.takeWhile_cons, if_neg hclose, List.append_nil]

theorem quoted?_append (h : '"' ∉ cs) : quoted? ('"' :: (cs ++ '"' :: rest)) = some (cs, rest) :=
  field?_append h

theorem braced?_append (hne : cs ≠ []) (h : '\x7d' ∉ cs) :
    braced? ('\x7b' :: (cs ++ '\x7d' :: rest)) = some (cs, rest) := by
  have hgiven : given? "\x7b" ('\x7b' :: (cs ++ '\x7d' :: rest)) = some (cs ++ '\x7d' :: rest) :=
    given?_append "\x7b" _
  unfold braced?
  rw [hgiven]
  dsimp only [bind, Option.bind]
  rw [field?_append h]
  dsimp only
  rw [if_neg fun hempty => hne (List.isEmpty_iff.mp hempty)]

theorem skipBlanks_append (g : Gap) (h : Text.isBlank c = false) :
    skipBlanks (g.chars ++ c :: rest) = c :: rest := by
  unfold skipBlanks
  rw [List.dropWhile_append_of_pos (List.all_eq_true.mp g.blank),
    List.dropWhile_cons_of_neg (Bool.eq_false_iff.mp h)]

theorem sign?_append (g g' : Gap) {d : Char} (h : Text.isBlank c = false)
    (h' : Text.isBlank d = false) :
    sign? c (g.chars ++ c :: (g'.chars ++ d :: rest)) = some (d :: rest) := by
  unfold sign?
  rw [skipBlanks_append g h]
  dsimp only
  rw [if_pos rfl, skipBlanks_append g' h']

/-- **An entry is read back** from its text, whatever blanks it has and whatever follows it. -/
theorem entry?_writtenBefore {e : WrittenEntry} (h : e.Proper) (g : Gaps) (rest : List Char) :
    entry? (e.writtenBefore g rest) = some (e, rest) := by
  have hequals (left : List Char) : sign? '=' (g.beforeEquals.chars ++ '=' ::
      (g.beforeName.chars ++ '"' :: left)) = some ('"' :: left) :=
    sign?_append _ _ (by decide) (by decide)
  have hcomma (g g' : Gap) (left : List Char) :
      sign? ',' (g.chars ++ ',' :: (g'.chars ++ '"' :: left)) = some ('"' :: left) :=
    sign?_append _ _ (by decide) (by decide)
  unfold entry? WrittenEntry.writtenBefore
  simp only [Option.bind_eq_bind, given?_append, Option.bind_some,
    braced?_append h.type_ne_nil h.type, hequals, quoted?_append h.name, hcomma,
    quoted?_append h.path, given?_quote, braced?_append h.guid_ne_nil h.guid]
  rfl

/-! ## Lines -/

/-- **A line of a solution**: an entry, with anything behind it, or anything else. A return in
front of the line end is part of the line. -/
inductive Line
  | entry (e : WrittenEntry) (g : Gaps) (tail : List Char)
  | other (cs : List Char)

namespace Line

/-- The beginning of an entry. -/
def mark : List Char := "Project(\"\x7b".toList

/-- The text of a line. -/
def chars : Line → List Char
  | entry e g tail => e.writtenBefore g tail
  | other cs => cs

/-- The entry of a line. -/
def entry? : Line → Option WrittenEntry
  | entry e _ _ => some e
  | other _ => none

/-- Lines that can be told apart: what is behind an entry stays on its line, and what is no entry
does not begin as one. -/
def Proper : Line → Prop
  | entry e _ tail => e.Proper ∧ '\n' ∉ tail
  | other cs => '\n' ∉ cs ∧ ¬ mark <+: cs

/-- The words that the version of the format stands behind. -/
def heading : String := "Microsoft Visual Studio Solution File, Format Version"

/-- **A line that states the format**: somewhere the heading, a blank or more, and a word. -/
def StatesFormat (l : Line) : Prop :=
  ∃ (front : List Char) (b : Char) (blanks : Gap) (c : Char) (back : List Char),
    l.chars = front ++ (heading.toList ++ b :: (blanks.chars ++ c :: back))
      ∧ Text.isBlank b = true ∧ Text.isBlank c = false

end Line

/-- The text of lines, with line ends between them. -/
def textOf : List Line → List Char
  | [] => []
  | [l] => l.chars
  | l :: rest => l.chars ++ '\n' :: textOf rest

theorem textOf_cons (l l' : Line) (rest : List Line) :
    textOf (l :: l' :: rest) = l.chars ++ '\n' :: textOf (l' :: rest) := rfl

/-- The entries among lines. -/
def entriesOf (lines : List Line) : List WrittenEntry := lines.filterMap Line.entry?

theorem writtenBefore_append (e : WrittenEntry) (g : Gaps) (tail rest : List Char) :
    e.writtenBefore g tail ++ rest = e.writtenBefore g (tail ++ rest) := by
  unfold WrittenEntry.writtenBefore
  generalize "Project(\"".toList = front
  generalize "\")".toList = between
  simp only [List.append_assoc, List.cons_append]

/-! ## Reading lines -/

theorem entry?_eq_none (h : ¬ Line.mark <+: cs) : entry? cs = none := by
  rw [Option.eq_none_iff_forall_ne_some]
  intro found hfound
  unfold entry? at hfound
  simp only [Option.bind_eq_bind, Option.bind_eq_some_iff] at hfound
  obtain ⟨after, hfront, ⟨type, left⟩, hbraced, -⟩ := hfound
  unfold braced? at hbraced
  simp only [Option.bind_eq_bind, Option.bind_eq_some_iff] at hbraced
  obtain ⟨inner, hbrace, -⟩ := hbraced
  obtain rfl := Text.dropFront?_eq_some_iff.mp hfront
  obtain rfl := Text.dropFront?_eq_some_iff.mp hbrace
  exact h ⟨inner, rfl⟩

theorem nextLine?_append (h : '\n' ∉ cs) (rest : List Char) :
    nextLine? (cs ++ '\n' :: rest) = some rest := by
  have hall : ∀ d ∈ cs, (d != '\n') = true := fun d hd => bne_iff_ne.mpr fun heq => h (heq ▸ hd)
  unfold nextLine?
  rw [List.dropWhile_append_of_pos hall, List.dropWhile_cons, if_neg (by decide)]

theorem nextLine?_of_not_mem (h : '\n' ∉ cs) : nextLine? cs = none := by
  have hall : ∀ d ∈ cs, (d != '\n') = true := fun d hd => bne_iff_ne.mpr fun heq => h (heq ▸ hd)
  unfold nextLine?
  rw [List.dropWhile_eq_nil_iff.mpr hall]

/-- A line that is no entry does not become one by what follows it. -/
theorem not_mark_append (h : ¬ Line.mark <+: cs) (rest : List Char) :
    ¬ Line.mark <+: cs ++ '\n' :: rest := by
  intro hmark
  rcases List.prefix_or_prefix_of_prefix hmark (List.prefix_append cs ('\n' :: rest)) with
    hin | ⟨more, hmore⟩
  · exact h hin
  · -- the mark would go on behind the line, and it holds no line end
    rw [← hmore, List.prefix_append_right_inj] at hmark
    cases more with
    | nil => exact h (hmore ▸ (List.append_nil cs).symm ▸ List.prefix_rfl)
    | cons d more =>
      obtain ⟨rfl, -⟩ := List.cons_prefix_cons.mp hmark
      have hnone : '\n' ∉ Line.mark := by decide
      rw [← hmore] at hnone
      exact hnone (List.mem_append_right _ List.mem_cons_self)

/-- What reading does at the first line. -/
theorem entriesFrom_cons {l : Line} (h : l.Proper) (fuel : Nat) (rest : List Char) :
    entriesFrom (fuel + 1) (l.chars ++ '\n' :: rest)
      = l.entry?.toList ++ entriesFrom fuel rest := by
  cases l with
  | entry e g tail =>
    rw [Line.chars, writtenBefore_append, entriesFrom, entry?_writtenBefore h.1]
    dsimp only
    rw [nextLine?_append h.2]
    rfl
  | other cs =>
    rw [Line.chars, entriesFrom, entry?_eq_none (not_mark_append h.2 rest)]
    dsimp only
    rw [nextLine?_append h.1]
    rfl

theorem entriesFrom_last {l : Line} (h : l.Proper) (fuel : Nat) :
    entriesFrom (fuel + 1) l.chars = l.entry?.toList := by
  cases l with
  | entry e g tail =>
    rw [Line.chars, entriesFrom, entry?_writtenBefore h.1]
    dsimp only
    rw [nextLine?_of_not_mem h.2]
    rfl
  | other cs =>
    rw [Line.chars, entriesFrom, entry?_eq_none h.2]
    dsimp only
    rw [nextLine?_of_not_mem h.1]
    rfl

theorem entriesOf_cons (l : Line) (rest : List Line) :
    entriesOf (l :: rest) = l.entry?.toList ++ entriesOf rest := by
  cases l <;> rfl

theorem entriesFrom_textOf {lines : List Line} (h : ∀ l ∈ lines, l.Proper) {fuel : Nat}
    (hfuel : lines.length ≤ fuel) : entriesFrom fuel (textOf lines) = entriesOf lines := by
  induction fuel generalizing lines with
  | zero => rw [List.eq_nil_of_length_eq_zero (Nat.le_zero.mp hfuel)]; rfl
  | succ fuel ih =>
    match lines with
    | [] => rfl
    | [l] =>
      rw [entriesOf_cons, textOf, entriesFrom_last (h l List.mem_cons_self)]
      exact (List.append_nil _).symm
    | l :: l' :: rest =>
      rw [List.forall_mem_cons] at h
      rw [textOf_cons, entriesFrom_cons h.1, entriesOf_cons, ih h.2 (Nat.le_of_succ_le_succ hfuel)]

theorem length_le_textOf (lines : List Line) : lines.length ≤ (textOf lines).length + 1 := by
  match lines with
  | [] => exact Nat.zero_le _
  | [_] => exact Nat.le_add_left _ _
  | l :: l' :: rest =>
    have ih := length_le_textOf (l' :: rest)
    simp only [textOf_cons, List.length_append, List.length_cons] at ih ⊢
    omega

/-- **The entries of a text are those of its lines.** -/
theorem entries_textOf {lines : List Line} (h : ∀ l ∈ lines, l.Proper) :
    entries (textOf lines) = entriesOf lines :=
  entriesFrom_textOf h (length_le_textOf lines)

/-! ## The format -/

theorem formatVersion?_append (front : List Char)
    (h : (wordBehind? Line.heading cs).isSome) :
    (formatVersion? (front ++ cs)).isSome := by
  induction front with
  | nil =>
    obtain ⟨w, hw⟩ := Option.isSome_iff_exists.mp h
    rw [Line.heading] at hw
    rw [List.nil_append]
    unfold formatVersion?
    rw [hw]
    rfl
  | cons d front ih =>
    rw [List.cons_append, formatVersion?]
    split
    · rfl
    · exact ih

theorem wordBehind?_append (heading : String) {b : Char} (blanks : Gap)
    (hb : Text.isBlank b = true) (hc : Text.isBlank c = false) :
    (wordBehind? heading (heading.toList ++ b :: (blanks.chars ++ c :: rest))).isSome := by
  have hword : (word? (c :: rest)).isSome := by
    unfold word?
    rw [List.takeWhile_cons_of_pos (by rw [hc]; rfl)]
    rfl
  unfold wordBehind?
  rw [given?_append]
  dsimp only [bind, Option.bind]
  rw [someBlanks?, if_pos hb, skipBlanks_append blanks hc]
  exact hword

/-- The text of a line stands in that of all lines. -/
theorem exists_textOf_eq {lines : List Line} {l : Line} (h : l ∈ lines) :
    ∃ before after, textOf lines = before ++ (l.chars ++ after) := by
  match lines with
  | [only] =>
    obtain rfl := List.mem_singleton.mp h
    exact ⟨[], [], (List.append_nil _).symm⟩
  | first :: second :: rest =>
    rw [textOf_cons]
    rcases List.mem_cons.mp h with rfl | h
    · exact ⟨[], _, rfl⟩
    · obtain ⟨before, after, heq⟩ := exists_textOf_eq h
      exact ⟨first.chars ++ '\n' :: before, after, by rw [heq, List.append_assoc]; rfl⟩

theorem formatVersion?_textOf {lines : List Line} (h : ∃ l ∈ lines, l.StatesFormat) :
    (formatVersion? (textOf lines)).isSome := by
  obtain ⟨l, hl, front, b, blanks, c, back, hchars, hb, hc⟩ := h
  obtain ⟨before, after, heq⟩ := exists_textOf_eq hl
  have htext : textOf lines = (before ++ front)
      ++ (Line.heading.toList ++ b :: (blanks.chars ++ c :: (back ++ after))) := by
    rw [heq, hchars]
    generalize Line.heading.toList = heading
    simp only [List.append_assoc, List.cons_append]
  rw [htext]
  exact formatVersion?_append _ (wordBehind?_append _ blanks hb hc)

/-! ## Members -/

/-- The path of an entry as it is followed. -/
def WrittenEntry.relative (e : WrittenEntry) : String :=
  Text.replaceChar '\\' '/' (String.ofList e.path)

/-- The member that an entry of a project stands for, seen from the directory of the solution. -/
def WrittenEntry.member (e : WrittenEntry) (f : Files) (directory : Path) : SolutionMember where
  name := String.ofList e.name
  path := f.resolve (directory.join (.ofText e.relative))
  typeGuid := Text.upper (String.ofList e.type)
  projectGuid := Text.upper (String.ofList e.guid)

theorem mem_of_mem_splitAfter {sep d : Char} {piece s p : List Char}
    (hp : p ∈ Text.splitAfter sep [] piece s) (hd : d ∈ p) : d ∈ piece ∨ d ∈ s := by
  induction s generalizing piece with
  | nil =>
    rw [Text.splitAfter, List.mem_singleton] at hp
    exact .inl (List.mem_reverse.mp (hp ▸ hd))
  | cons first rest ih =>
    rw [Text.splitAfter_cons] at hp
    split at hp
    · rcases List.mem_cons.mp hp with rfl | hp
      · exact .inl (List.mem_reverse.mp hd)
      · exact .inr (List.mem_cons_of_mem _ ((ih hp).resolve_left List.not_mem_nil))
    · rcases ih hp with hpiece | hrest
      · rcases List.mem_cons.mp hpiece with rfl | hpiece
        · exact .inr List.mem_cons_self
        · exact .inl hpiece
      · exact .inr (List.mem_cons_of_mem _ hrest)

/-- The names of a path are made of what its text is made of. -/
theorem mem_of_mem_namesOf {s n : String} {d : Char} (hn : n ∈ Path.namesOf s)
    (hd : d ∈ n.toList) : d ∈ s.toList := by
  obtain ⟨hn, -⟩ := List.mem_filter.mp hn
  change n ∈ (Text.splitAfter '/' [] [] s.toList).map String.ofList at hn
  obtain ⟨p, hp, rfl⟩ := List.mem_map.mp hn
  rw [String.toList_ofList] at hd
  exact (mem_of_mem_splitAfter hp hd).resolve_left List.not_mem_nil

theorem null_not_mem_relative {e : WrittenEntry} (h : '\x00' ∉ e.path) :
    '\x00' ∉ e.relative.toList := by
  intro hin
  unfold WrittenEntry.relative Text.replaceChar at hin
  rw [String.toList_ofList, String.toList_ofList, List.mem_map] at hin
  obtain ⟨d, hd, heq⟩ := hin
  split at heq
  · cases heq
  · exact h (heq ▸ hd)

/-- A file that is read has no null character in its path. -/
theorem null_not_mem_of_readText {f : Files} {absolute : Path} {content : String}
    (habsolute : absolute.Settled) (h : f.readText absolute = .ok content) :
    ∀ n ∈ absolute.names, '\x00' ∉ n.toList := by
  intro n hn hnull
  unfold Files.readText Files.read Files.find? at h
  rw [Path.join_of_settled habsolute] at h
  have hany : absolute.names.any (·.toList.contains '\x00') = true :=
    List.any_eq_true.mpr ⟨n, hn, List.contains_iff_mem.mpr hnull⟩
  simp only [hany, if_true] at h
  cases h

theorem member?_eq_ok (f : Files) {directory : Path} {e : WrittenEntry}
    (hdirectory : ∀ n ∈ directory.names, '\x00' ∉ n.toList) (h : '\x00' ∉ e.path) :
    member? f directory e
      = .ok (if isProjectPath e.relative then some (e.member f directory) else none) := by
  have hresolve : resolve f (directory.join (.ofText e.relative))
      = .ok (f.resolve (directory.join (.ofText e.relative))) := by
    refine if_neg fun hany => ?_
    obtain ⟨n, hn, hnull⟩ := List.any_eq_true.mp hany
    rw [List.contains_iff_mem] at hnull
    rcases Path.mem_names_join hn with hin | hin
    · exact hdirectory n hin hnull
    · exact null_not_mem_relative h (mem_of_mem_namesOf hin hnull)
  unfold member?
  change (if isProjectPath e.relative then _ else _) = _
  split
  · change (resolve f (directory.join (.ofText e.relative))).bind _ = _
    rw [hresolve]
    rfl
  · rfl

theorem filterMap_id_map_ite {α β : Type} (p : α → Bool) (m : α → β) (l : List α) :
    (l.map fun a => if p a then some (m a) else none).filterMap id = (l.filter p).map m := by
  rw [List.filterMap_map, ← List.filterMap_eq_filter, List.map_filterMap]
  refine List.filterMap_congr fun a _ => ?_
  change (if p a = true then some (m a) else none) = _
  rw [Option.map_guard]

/-- Reading a solution that states its format. -/
theorem readSolution_eq_ok {f : Files} {path absolute : Path}
    {members : List (Option SolutionMember)} (hresolve : resolve f path = .ok absolute)
    (htext : f.readText absolute = .ok (String.ofList cs)) (hformat : (formatVersion? cs).isSome)
    (hmembers : (entries cs).mapM (member? f absolute.parent) = .ok members) :
    readSolution f path = .ok {
      path := absolute, name := absolute.stem, members := members.filterMap id
      formatVersion := formatVersion? cs, studioVersion := studioVersion? cs } := by
  have hstated : (formatVersion? cs).isNone = false := by
    rw [← Option.not_isSome, hformat]
    rfl
  unfold readSolution
  rw [hresolve]
  dsimp only [bind, Except.bind]
  rw [htext]
  dsimp only [Except.mapError]
  rw [String.toList_ofList, hstated, hmembers]
  rfl

/-- **The members of a solution are its entries of projects**, each once, in order. -/
theorem readSolution_written {f : Files} {path absolute : Path} {lines : List Line}
    (hresolve : resolve f path = .ok absolute)
    (htext : f.readText absolute = .ok (String.ofList (textOf lines)))
    (hlines : ∀ l ∈ lines, l.Proper) (hnull : ∀ e ∈ entriesOf lines, '\x00' ∉ e.path)
    (hformat : ∃ l ∈ lines, l.StatesFormat) :
    ∃ solution, readSolution f path = .ok solution
      ∧ solution.members = ((entriesOf lines).filter (isProjectPath ·.relative)).map
          (·.member f absolute.parent) := by
  have hdirectory : ∀ n ∈ absolute.parent.names, '\x00' ∉ n.toList := fun n hn =>
    null_not_mem_of_readText (settled_of_resolve hresolve) htext n (List.dropLast_subset _ hn)
  have hmembers := mapM_eq_ok fun e he => member?_eq_ok f hdirectory (hnull e he)
  rw [← entries_textOf hlines] at hmembers
  refine ⟨_, readSolution_eq_ok hresolve htext (formatVersion?_textOf hformat) hmembers, ?_⟩
  rw [filterMap_id_map_ite, entries_textOf hlines]

/-! ### A solution with a folder -/

/-- A project that is written over two lines, and a folder without any blanks. -/
def folderLines : List Line :=
  let nothing : Gap := ⟨[], by decide⟩
  let space : Gap := ⟨[' '], by decide⟩
  let lineEnd : Gap := ⟨['\r', '\n', '\t'], by decide⟩
  [.other "\r".toList,
    .other "Microsoft Visual Studio Solution File, Format Version 12.00\r".toList,
    .entry ⟨"fae0".toList, "App".toList, "src\\App.csproj".toList, "1a".toList⟩
      ⟨space, space, nothing, lineEnd, nothing, space⟩ ['\r'],
    .other "EndProject\r".toList,
    .entry ⟨"2150".toList, "docs".toList, "docs".toList, "2B".toList⟩
      ⟨nothing, nothing, nothing, nothing, nothing, nothing⟩ []]

def folderFiles : Files where
  root := .directory [("w", .directory
    [("all.sln", .file (Bytes.ofText (String.ofList (textOf folderLines))))])]
  here := ⟨"/", ["w"]⟩

theorem readText_folderFiles : folderFiles.readText ⟨"/", ["w", "all.sln"]⟩
    = .ok (String.ofList (textOf folderLines)) := by
  have hread : folderFiles.read ⟨"/", ["w", "all.sln"]⟩
      = .ok (Bytes.ofText (String.ofList (textOf folderLines))) := rfl
  have hdecode : Text.Utf8.decodeFile (Bytes.ofText (String.ofList (textOf folderLines)))
      = .ok (String.ofList (textOf folderLines)) := Text.Utf8.decodeFile_ofText (by decide) _
  unfold Files.readText
  rw [hread]
  dsimp only
  rw [hdecode]
  rfl

theorem proper_folderLines : ∀ l ∈ folderLines, l.Proper := by
  simp only [folderLines, List.forall_mem_cons]
  refine ⟨?_, ?_, ?_, ?_, ?_, fun _ h => nomatch h⟩
  · exact ⟨by decide, by decide⟩
  · exact ⟨by decide, by decide⟩
  · exact ⟨⟨by decide, by decide, by decide, by decide, by decide, by decide⟩, by decide⟩
  · exact ⟨by decide, by decide⟩
  · exact ⟨⟨by decide, by decide, by decide, by decide, by decide, by decide⟩, by decide⟩

theorem statesFormat_folderLines : ∃ l ∈ folderLines, l.StatesFormat :=
  ⟨_, List.mem_cons_of_mem _ List.mem_cons_self, [], ' ', ⟨[], by decide⟩, '1', "2.00\r".toList,
    by rfl, by decide, by decide⟩

/-- The folder is passed over. -/
theorem readSolution_written_folder :
    resolve folderFiles ⟨"", ["all.sln"]⟩ = .ok ⟨"/", ["w", "all.sln"]⟩
    ∧ folderFiles.readText ⟨"/", ["w", "all.sln"]⟩ = .ok (String.ofList (textOf folderLines))
    ∧ (∀ l ∈ folderLines, l.Proper) ∧ (∀ e ∈ entriesOf folderLines, '\x00' ∉ e.path)
    ∧ (∃ l ∈ folderLines, l.StatesFormat)
    ∧ ∃ solution, readSolution folderFiles ⟨"", ["all.sln"]⟩ = .ok solution
      ∧ solution.members = [⟨"App", ⟨"/", ["w", "src", "App.csproj"]⟩, "FAE0", "1A"⟩] := by
  have hresolve : resolve folderFiles ⟨"", ["all.sln"]⟩ = .ok ⟨"/", ["w", "all.sln"]⟩ := rfl
  have hnull : ∀ e ∈ entriesOf folderLines, '\x00' ∉ e.path := by decide
  obtain ⟨solution, hsolution, hmembers⟩ := readSolution_written hresolve readText_folderFiles
    proper_folderLines hnull statesFormat_folderLines
  refine ⟨hresolve, readText_folderFiles, proper_folderLines, hnull, statesFormat_folderLines,
    solution, hsolution, hmembers.trans ?_⟩
  decide +kernel

end SyntaxForest.Manifest.Solution
