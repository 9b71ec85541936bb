import Mathlib
import SyntaxForest.Proofs.Files.Discovery
import SyntaxForest.Proofs.Files.Paths
import SyntaxForest.Proofs.Manifest.Items

/-!
# The order of a project's sources

No source of a project is listed twice. The sources that are found come first, in the order of
their relative paths, and each source that is there because an item includes it stands where it is
included first (`readProject_ordered`). Items are read kind by kind, so this is not the order of
the document: a source that an item of the kind `Content` includes stands behind all those of the
kind `Compile`, even if its item is the first of all (`readProject_ordered_across`). If the items
stand kind by kind in the document (`Survey.KindByKind`), it is the order of the document.
-/

namespace SyntaxForest

/-! ## What is met first -/

section

variable {α β : Type}

/-- One of two elements is met in a list before the other. -/
def Ahead (l : List α) (p q : α) : Prop :=
  ∃ front back, l = front ++ p :: back ∧ p ∉ front ∧ q ∉ front

/-- **One of two things is met first**: the first member of a list that has one of them has `p`,
and if it has `q` as well, then `p` comes before `q` in it. -/
def FirstBy (has : α → β → Prop) (before : α → β → β → Prop) (l : List α) (p q : β) : Prop :=
  ∃ front a back, l = front ++ a :: back ∧ (∀ b ∈ front, ¬ has b p ∧ ¬ has b q)
    ∧ has a p ∧ (has a q → before a p q)

theorem FirstBy.mono {has : α → β → Prop} {before before' : α → β → β → Prop} {l : List α} {p q : β}
    (hbefore : ∀ a ∈ l, before a p q → before' a p q) (h : FirstBy has before l p q) :
    FirstBy has before' l p q := by
  obtain ⟨front, a, back, rfl, hfront, hp, hq⟩ := h
  exact ⟨front, a, back, rfl, hfront, hp, fun hq' =>
    hbefore a (List.mem_append_right _ List.mem_cons_self) (hq hq')⟩

/-- What has the second of two things and not the first does not stand in front. -/
theorem not_firstBy_cons {has : α → β → Prop} {before : α → β → β → Prop} {a : α} {l : List α}
    {p q : β} (hp : ¬ has a p) (hq : has a q) : ¬ FirstBy has before (a :: l) p q := by
  rintro ⟨front, b, back, heq, hfront, hb, -⟩
  cases front with
  | nil =>
    obtain ⟨rfl, -⟩ := List.cons.inj heq
    exact hp hb
  | cons c front =>
    obtain ⟨rfl, -⟩ := List.cons.inj heq
    exact (hfront a List.mem_cons_self).2 hq

theorem ahead_of_mem {l : List α} {p q : α} (hp : p ∈ l) (hq : q ∉ l) (more : List α) :
    Ahead (l ++ more) p q := by
  obtain ⟨front, back, rfl, hfront⟩ := List.eq_append_cons_of_mem hp
  refine ⟨front, back ++ more, by simp, hfront, fun h => hq (List.mem_append_left _ h)⟩

theorem Ahead.append {l : List α} {p q : α} (h : Ahead l p q) (more : List α) :
    Ahead (l ++ more) p q := by
  obtain ⟨front, back, rfl, hp, hq⟩ := h
  exact ⟨front, back ++ more, by simp, hp, hq⟩

/-- Who is ahead in two lists is ahead in the first of them, or neither is in it. -/
theorem Ahead.of_append {a b : List α} {p q : α} (h : Ahead (a ++ b) p q) :
    Ahead a p q ∨ p ∉ a ∧ q ∉ a ∧ Ahead b p q := by
  obtain ⟨front, back, heq, hp, hq⟩ := h
  rcases List.append_eq_append_iff.mp heq with ⟨mid, rfl, hb⟩ | ⟨mid, rfl, hb⟩
  · rw [List.mem_append, not_or] at hp hq
    exact .inr ⟨hp.1, hq.1, mid, back, hb, hp.2, hq.2⟩
  · cases mid with
    | nil =>
      rw [List.append_nil]
      exact .inr ⟨hp, hq, [], back, hb.symm, List.not_mem_nil, List.not_mem_nil⟩
    | cons c mid =>
      obtain ⟨rfl, -⟩ := List.cons.inj hb
      exact .inl ⟨front, mid, rfl, hp, hq⟩

/-- **In lists side by side** the first list that has one of two elements tells which is ahead. -/
theorem Ahead.firstBy {g : α → List β} {l : List α} {p q : β} (h : Ahead (l.flatMap g) p q) :
    FirstBy (fun a p => p ∈ g a) (fun a => Ahead (g a)) l p q := by
  induction l with
  | nil =>
    obtain ⟨front, back, heq, -⟩ := h
    exact absurd heq.symm (List.append_ne_nil_of_right_ne_nil _ (List.cons_ne_nil _ _))
  | cons a rest ih =>
    rw [List.flatMap_cons] at h
    rcases h.of_append with h | ⟨hp, hq, h⟩
    · have hin : p ∈ g a := by
        obtain ⟨front, back, heq, -⟩ := h
        exact heq ▸ List.mem_append_right _ List.mem_cons_self
      exact ⟨[], a, rest, rfl, fun _ hb => absurd hb List.not_mem_nil, hin, fun _ => h⟩
    · obtain ⟨front, b, back, rfl, hfront, hb⟩ := ih h
      exact ⟨a :: front, b, back, rfl, List.forall_mem_cons.mpr ⟨⟨hp, hq⟩, hfront⟩, hb⟩

/-- **In the image of a sorted list** the first element with one of two images comes before all
those with the other. -/
theorem Ahead.of_sorted {r : α → β} {le : α → α → Prop} {l : List α} (hsorted : l.Pairwise le)
    {p q : β} (hne : p ≠ q) (h : Ahead (l.map r) p q) :
    ∃ a ∈ l, r a = p ∧ ∀ b ∈ l, r b = q → le a b := by
  obtain ⟨front, back, heq, -, hq⟩ := h
  obtain ⟨front', rest, rfl, rfl, hrest⟩ := List.map_eq_append_iff.mp heq
  obtain ⟨a, back', rfl, rfl, rfl⟩ := List.map_eq_cons_iff.mp hrest
  refine ⟨a, List.mem_append_right _ List.mem_cons_self, rfl, fun b hb hbq => ?_⟩
  rw [List.pairwise_append, List.pairwise_cons] at hsorted
  rcases List.mem_append.mp hb with hb | hb
  · exact absurd (List.mem_map.mpr ⟨b, hb, hbq⟩) hq
  · rcases List.mem_cons.mp hb with rfl | hb
    · exact absurd hbq hne
    · exact hsorted.2.1.1 b hb

end

namespace Manifest

namespace MSBuild

/-! ## Grouping -/

/-- **A list that is sorted by a key is its groups in a row.** -/
theorem flatMap_filter_eq {α β : Type} [DecidableEq β] {key : α → β} {keys : List β}
    (hkeys : keys.Nodup) {l : List α} (hin : ∀ a ∈ l, key a ∈ keys)
    (hsorted : l.Pairwise fun a b => keys.idxOf (key a) ≤ keys.idxOf (key b)) :
    keys.flatMap (fun k => l.filter fun a => key a == k) = l := by
  induction l with
  | nil => simp
  | cons a rest ih =>
    rw [List.forall_mem_cons] at hin
    rw [List.pairwise_cons] at hsorted
    have hrest := ih hin.2 hsorted.2
    obtain ⟨front, back, rfl⟩ := List.append_of_mem hin.1
    obtain ⟨-, hcons, hapart⟩ := List.nodup_append.mp hkeys
    have ha : key a ∉ front := fun h => hapart _ h _ List.mem_cons_self rfl
    -- no key in front of the first one occurs
    have hnone : ∀ k ∈ front, ∀ b ∈ a :: rest, ¬ (key b == k) = true := by
      intro k hk b hb hkey
      obtain rfl := beq_iff_eq.mp hkey
      have hle : (front ++ key a :: back).idxOf (key a) ≤ (front ++ key a :: back).idxOf (key b) := by
        rcases List.mem_cons.mp hb with rfl | hb
        · exact Nat.le_refl _
        · exact hsorted.1 b hb
      rw [List.idxOf_append_of_notMem ha, List.idxOf_append_of_mem hk] at hle
      have hlt := List.idxOf_lt_length_iff.mpr hk
      omega
    have hempty : ∀ l' : List α, (∀ b ∈ l', b ∈ a :: rest) →
        front.flatMap (fun k => l'.filter fun b => key b == k) = [] := fun l' hl' =>
      List.flatMap_eq_nil_iff.mpr fun k hk =>
        List.filter_eq_nil_iff.mpr fun b hb => hnone k hk b (hl' b hb)
    have hback : back.flatMap (fun k => (a :: rest).filter fun b => key b == k)
        = back.flatMap fun k => rest.filter fun b => key b == k := by
      refine List.flatMap_congr fun k hk => List.filter_cons_of_neg ?_
      rw [beq_iff_eq]
      rintro rfl
      exact (List.nodup_cons.mp hcons).1 hk
    rw [List.flatMap_append, hempty _ fun b hb => List.mem_cons_of_mem _ hb, List.nil_append,
      List.flatMap_cons] at hrest
    have hfirst : (a :: rest).filter (fun b => key b == key a)
        = a :: rest.filter fun b => key b == key a :=
      List.filter_cons_of_pos (beq_self_eq_true (key a))
    rw [List.flatMap_append, hempty _ fun b hb => hb, List.nil_append, List.flatMap_cons, hback,
      hfirst, List.cons_append, hrest]

/-! ## What remains -/

variable {f : Files} {removed : List Path}

/-- **Of what remains** each path stands before those that are mentioned later. -/
theorem remaining_pairwise (mentioned : List Path) :
    (remaining f removed mentioned).Pairwise (Ahead (mentioned.map f.resolve)) := by
  induction mentioned using List.reverseRecOn with
  | nil => exact .nil
  | append_singleton mentioned q ih =>
    have hold := ih.imp fun h => h.append [f.resolve q]
    rw [remaining_concat, List.map_append, List.map_singleton]
    split
    · exact hold
    · next hnew =>
      rw [not_or, mem_remaining, not_and_not_right] at hnew
      rw [List.pairwise_append]
      refine ⟨hold, List.pairwise_singleton _ _, fun p hp p' hp' => ?_⟩
      rw [List.mem_singleton.mp hp']
      exact ahead_of_mem (mem_remaining.mp hp).1 (fun hq => hnew.1 (hnew.2 hq)) _

/-- Paths that are resolved and differ remain as they are, but for those taken back. -/
theorem remaining_of_resolved {mentioned : List Path} (hresolved : ∀ p ∈ mentioned, f.resolve p = p)
    (hnodup : mentioned.Nodup) :
    remaining f removed mentioned = mentioned.filter fun p => !removed.contains p := by
  induction mentioned using List.reverseRecOn with
  | nil => rfl
  | append_singleton mentioned q ih =>
    rw [List.forall_mem_append, List.forall_mem_singleton] at hresolved
    rw [← List.concat_eq_append, List.nodup_concat] at hnodup
    have hnew : q ∉ remaining f removed mentioned := by
      rw [ih hresolved.1 hnodup.2]
      exact fun h => hnodup.1 (List.mem_filter.mp h).1
    rw [remaining_concat, hresolved.2, List.filter_append, ← ih hresolved.1 hnodup.2]
    by_cases hremoved : q ∈ removed
    · simp [hremoved]
    · simp [hremoved, hnew]

namespace Survey

variable (s : Survey)

/-! ## Items -/

/-- A part of an item list names one source before another: some path that it names for the one
comes after none that it names for the other. -/
def MatchedFirst (part : String) (p q : Path) : Prop :=
  ∃ a ∈ s.partSources part, s.files.resolve a = p
    ∧ ∀ b ∈ s.partSources part, s.files.resolve b = q → ¬ b.names < a.names

/-- **An item includes one source before another**: by an earlier part of its list, or by the same
pattern, in the order of the names of the paths that the pattern names. -/
def NamedFirst (item : Xml.Element) : Path → Path → Prop :=
  FirstBy (fun part p => p ∈ (s.partSources part).map s.files.resolve) s.MatchedFirst
    (partsOf item "Include")

/-- **Some items include one source before another**: by an earlier item, or by the same. -/
def IncludedFirst (items : List Xml.Element) : Path → Path → Prop :=
  FirstBy (fun item p => p ∈ s.includedBy item) s.NamedFirst items

/-- The items of the project in the order of the document. -/
def items : List Xml.Element := s.root.elements.filter fun item => itemKinds.contains item.name

/-- The items stand kind by kind in the document. -/
def KindByKind : Prop :=
  s.items.Pairwise fun a b => itemKinds.idxOf a.name ≤ itemKinds.idxOf b.name

variable {s}

/-- **The paths that a part names are sorted** by their names. -/
theorem partPaths_pairwise (part : String) :
    (s.partPaths part).Pairwise fun a b => ¬ b.names < a.names := by
  unfold partPaths expand
  split
  · unfold Files.matching
    cases PathPiece.ofText part with
    | error e => exact .nil
    | ok pieces =>
      dsimp only
      split
      · split
        · exact .nil
        · exact pairwise_mergeSort_not_lt Path.names (fun _ _ _ => List.le_trans) List.le_total _
      · exact .nil
  · exact List.pairwise_singleton _ _

theorem includedBy_eq (item : Xml.Element) : s.includedBy item
    = (partsOf item "Include").flatMap fun part => (s.partSources part).map s.files.resolve := by
  rw [includedBy, itemSources, List.map_flatMap]

/-- What is ahead in what items include is included first. -/
theorem includedFirst_of_ahead {items : List Xml.Element} {p q : Path} (hne : p ≠ q)
    (h : Ahead (items.flatMap s.includedBy) p q) : s.IncludedFirst items p q := by
  refine h.firstBy.mono fun item _ hitem => ?_
  rw [includedBy_eq] at hitem
  exact hitem.firstBy.mono fun part _ hpart =>
    hpart.of_sorted ((partPaths_pairwise part).sublist List.filter_sublist) hne

/-- **Items that stand kind by kind** are read as they stand. -/
theorem itemsRead_eq_items (h : s.KindByKind) : s.itemsRead = s.items := by
  have hnamed : ∀ kind ∈ itemKinds, s.root.named kind = s.items.filter (·.name == kind) := by
    intro kind hkind
    rw [items, List.filter_filter, Xml.Element.named]
    refine List.filter_congr fun item _ => ?_
    rw [Bool.eq_self_and, beq_iff_eq]
    rintro rfl
    exact List.contains_iff_mem.mpr hkind
  rw [itemsRead, List.flatMap_congr hnamed]
  exact flatMap_filter_eq (by decide)
    (fun item hitem => List.contains_iff_mem.mp (List.mem_filter.mp hitem).2) h

/-- **The sources that the items add** to those that are found stand where they are included
first. -/
theorem exists_remaining_eq (s : Survey) : ∃ included,
    remaining s.files s.removed s.mentioned = remaining s.files s.removed s.found ++ included
      ∧ (∀ p ∈ included, p ∉ s.found.map s.files.resolve ∧ ∃ item ∈ s.items, p ∈ s.includedBy item)
      ∧ included.Pairwise (s.IncludedFirst s.itemsRead) := by
  obtain ⟨included, heq, hnew⟩ := @remaining_append s.files s.removed s.found
    (s.itemsRead.flatMap s.itemSources)
  have hmap : (s.itemsRead.flatMap s.itemSources).map s.files.resolve
      = s.itemsRead.flatMap s.includedBy := List.map_flatMap ..
  have hsublist : included.Sublist (remaining s.files s.removed s.mentioned) :=
    heq ▸ List.sublist_append_right _ _
  refine ⟨included, heq, fun p hp => ⟨hnew p hp, ?_⟩, ?_⟩
  · have hmentioned := (mem_remaining.mp (hsublist.subset hp)).1
    rw [mentioned, List.map_append, hmap, List.mem_append, or_iff_right (hnew p hp),
      List.mem_flatMap] at hmentioned
    obtain ⟨item, hitem, hin⟩ := hmentioned
    obtain ⟨helement, hkind⟩ := s.mem_itemsRead.mp hitem
    exact ⟨item, List.mem_filter.mpr ⟨helement, List.contains_iff_mem.mpr hkind⟩, hin⟩
  · refine (((remaining_pairwise s.mentioned).sublist hsublist).and
      ((nodup_remaining s.mentioned).sublist hsublist)).imp_of_mem ?_
    rintro p q hp - ⟨hahead, hne⟩
    rw [mentioned, List.map_append, hmap] at hahead
    rcases hahead.of_append with hfound | ⟨-, -, hahead⟩
    · obtain ⟨front, back, hfound, -⟩ := hfound
      exact absurd (hfound ▸ List.mem_append_right _ List.mem_cons_self) (hnew p hp)
    · exact includedFirst_of_ahead hne hahead

end Survey

end MSBuild

open MSBuild

variable {f : Files} {path absolute : Path} {root : Xml.Element}

theorem settled_of_reads (h : Reads f path absolute root) : absolute.Settled := by
  obtain ⟨content, hholds, -⟩ := h.document
  exact settled_of_resolve hholds.resolve

/-- What is found below a resolved directory of a proper tree is resolved. -/
theorem resolve_of_found (hroot : f.root.Proper) {directory : Path} (hdirectory : directory.Settled)
    {extensions excluded : List String} {p : Path}
    (hp : p ∈ f.discover directory extensions excluded) : f.resolve p = p := by
  obtain ⟨e, way, hfind, hfile, rfl, -⟩ := Files.mem_discover.mp hp
  refine Path.resolve_of_settled (p := directory.inner way) ⟨hdirectory.root, fun hback => ?_⟩ _
  rcases List.mem_append.mp hback with hback | hback
  · exact hdirectory.back hback
  · exact (hfile.names (Files.proper_of_find? hroot hfind) _ hback).1 rfl

/-- **No source is listed twice**, the sources that are found come first and are sorted, and those
that are there because an item includes them stand where they are included first, as the items are
read. If the items stand kind by kind, this is as they stand in the document. -/
theorem readProject_ordered (hroot : f.root.Proper) (h : Reads f path absolute root)
    (supported excluded : List String) :
    let s := surveyOf f supported excluded absolute root
    ∃ m, readProject f supported excluded path = .ok m ∧ m.files.Nodup
      ∧ ∃ found included, m.files = found ++ included
        ∧ (∀ p ∈ found, p ∈ s.found)
        ∧ (found.Pairwise fun p q => s.directory.relativeText p < s.directory.relativeText q)
        ∧ (∀ p ∈ included, p ∉ s.found ∧ ∃ item ∈ s.items, p ∈ s.includedBy item)
        ∧ included.Pairwise (s.IncludedFirst s.itemsRead)
        ∧ (s.KindByKind → included.Pairwise (s.IncludedFirst s.items)) := by
  intro s
  have hresolved : ∀ p ∈ s.found, s.files.resolve p = p := by
    intro p hp
    unfold Survey.found at hp
    split at hp
    · exact resolve_of_found hroot (settled_of_reads h).parent hp
    · cases hp
  have hsorted : s.found.Pairwise fun p q =>
      s.directory.relativeText p < s.directory.relativeText q := by
    unfold Survey.found
    split
    · exact Files.discover_pairwise hroot _ _ _
    · exact .nil
  have hnodup : s.found.Nodup := hsorted.imp fun hlt heq => by
    rw [heq] at hlt
    exact String.lt_irrefl _ hlt
  have hfound : s.found.map s.files.resolve = s.found :=
    (List.map_congr_left hresolved).trans (List.map_id _)
  obtain ⟨included, heq, hincluded, hpairwise⟩ := s.exists_remaining_eq
  rw [remaining_of_resolved hresolved hnodup] at heq
  refine ⟨_, readProject_eq_ok h supported excluded, nodup_remaining _,
    s.found.filter fun p => !s.removed.contains p, included, heq,
    fun p hp => (List.mem_filter.mp hp).1, hsorted.filter _, ?_, hpairwise,
    fun hkinds => Survey.itemsRead_eq_items hkinds ▸ hpairwise⟩
  exact fun p hp => ⟨hfound ▸ (hincluded p hp).1, (hincluded p hp).2⟩

/-! ### Items of two kinds -/

theorem proper_filesWith (project : Bytes) : (filesWith project).root.Proper := by
  have hinner : Entry.Proper (.directory [("e.cs", .file #[]), ("f.cs", .file #[])]) :=
    .directory (by decide) (by simp) (by simp) (by simp [Entry.Proper.file])
  exact .directory (by simp) (by simp) (by simp) (by simp [Entry.Proper.file, hinner])

/-- A project whose items stand as they are read. -/
def kindsRoot : Xml.Element :=
  ⟨"P", [], "", [⟨"Compile", [("Include", "b.cs")], "", []⟩,
    ⟨"None", [("Include", "a.cs")], "", []⟩]⟩

def kindsProject : Bytes :=
  Bytes.ofText "<P><Compile Include=\"b.cs\"/><None Include=\"a.cs\"/></P>"

theorem parse_kindsProject : Xml.parse kindsProject.toList = .ok kindsRoot := by cbv

theorem reads_kindsProject :
    Reads (filesWith kindsProject) ⟨"/", ["p.proj"]⟩ ⟨"/", ["p.proj"]⟩ kindsRoot :=
  reads_filesWith parse_kindsProject (by cbv)

/-- What its sources are told from. -/
def kindsSurvey : Survey :=
  surveyOf (filesWith kindsProject) [".cs"] [] ⟨"/", ["p.proj"]⟩ kindsRoot

theorem kindByKind_kindsSurvey : kindsSurvey.KindByKind := by
  have helements : kindsSurvey.root.elements = [kindsRoot,
    ⟨"Compile", [("Include", "b.cs")], "", []⟩, ⟨"None", [("Include", "a.cs")], "", []⟩] := rfl
  rw [Survey.KindByKind, Survey.items, helements, List.filter_cons_of_neg (by decide),
    List.filter_cons_of_pos (by decide), List.filter_cons_of_pos (by decide), List.filter_nil,
    List.pairwise_pair]
  decide

/-- **Its sources stand as in the document.** -/
theorem readProject_ordered_kinds : (filesWith kindsProject).root.Proper
    ∧ Reads (filesWith kindsProject) ⟨"/", ["p.proj"]⟩ ⟨"/", ["p.proj"]⟩ kindsRoot
    ∧ kindsSurvey.KindByKind
    ∧ ∃ m, readProject (filesWith kindsProject) [".cs"] [] ⟨"/", ["p.proj"]⟩ = .ok m
      ∧ m.files.Nodup ∧ m.files.Pairwise (kindsSurvey.IncludedFirst kindsSurvey.items) := by
  obtain ⟨m, hm, hnodup, found, included, heq, hfound, -, -, -, hpairwise⟩ :=
    readProject_ordered (proper_filesWith kindsProject) reads_kindsProject [".cs"] []
  -- it is of the style that names all its sources
  have hnone : found = [] := List.eq_nil_iff_forall_not_mem.mpr fun p hp => nomatch hfound p hp
  rw [hnone, List.nil_append] at heq
  exact ⟨proper_filesWith _, reads_kindsProject, kindByKind_kindsSurvey, m, hm, hnodup,
    heq ▸ hpairwise kindByKind_kindsSurvey⟩

/-- A project whose first item is read last. -/
def acrossRoot : Xml.Element :=
  ⟨"P", [], "", [⟨"None", [("Include", "b.cs")], "", []⟩,
    ⟨"Compile", [("Include", "a.cs")], "", []⟩]⟩

def acrossProject : Bytes :=
  Bytes.ofText "<P><None Include=\"b.cs\"/><Compile Include=\"a.cs\"/></P>"

theorem parse_acrossProject : Xml.parse acrossProject.toList = .ok acrossRoot := by cbv

theorem reads_acrossProject :
    Reads (filesWith acrossProject) ⟨"/", ["p.proj"]⟩ ⟨"/", ["p.proj"]⟩ acrossRoot :=
  reads_filesWith parse_acrossProject (by cbv)

/-- What its sources are told from. -/
def acrossSurvey : Survey :=
  surveyOf (filesWith acrossProject) [".cs"] [] ⟨"/", ["p.proj"]⟩ acrossRoot

theorem items_acrossSurvey : acrossSurvey.items = [⟨"None", [("Include", "b.cs")], "", []⟩,
    ⟨"Compile", [("Include", "a.cs")], "", []⟩] := by
  have helements : acrossSurvey.root.elements = [acrossRoot,
    ⟨"None", [("Include", "b.cs")], "", []⟩, ⟨"Compile", [("Include", "a.cs")], "", []⟩] := rfl
  rw [Survey.items, helements, List.filter_cons_of_neg (by decide),
    List.filter_cons_of_pos (by decide), List.filter_cons_of_pos (by decide), List.filter_nil]

theorem remaining_acrossSurvey :
    remaining acrossSurvey.files acrossSurvey.removed acrossSurvey.mentioned
      = [⟨"/", ["a.cs"]⟩, ⟨"/", ["b.cs"]⟩] := by
  cbv

/-- **They do not stand as in the document**: the first item includes the last source. -/
theorem readProject_ordered_across :
    ∃ m, readProject (filesWith acrossProject) [".cs"] [] ⟨"/", ["p.proj"]⟩ = .ok m
      ∧ m.files = [⟨"/", ["a.cs"]⟩, ⟨"/", ["b.cs"]⟩]
      ∧ acrossSurvey.found = []
      ∧ ¬ m.files.Pairwise (acrossSurvey.IncludedFirst acrossSurvey.items) := by
  have hfirst : acrossSurvey.includedBy ⟨"None", [("Include", "b.cs")], "", []⟩
      = [⟨"/", ["b.cs"]⟩] := by cbv
  refine ⟨_, readProject_eq_ok reads_acrossProject _ _, remaining_acrossSurvey, rfl, fun h => ?_⟩
  change (remaining acrossSurvey.files acrossSurvey.removed acrossSurvey.mentioned).Pairwise _ at h
  rw [remaining_acrossSurvey, List.pairwise_pair, items_acrossSurvey] at h
  refine not_firstBy_cons ?_ ?_ h
  · rw [hfirst]
    decide
  · rw [hfirst]
    exact List.mem_singleton_self _

end Manifest

end SyntaxForest
