import SyntaxForest.Proofs.Template.Census
import SyntaxForest.Proofs.Template.Laminar
import SyntaxForest.Proofs.Template.Share
import SyntaxForest.Proofs.Template.Texts

/-!
# One insertion keeps a tree sound

A tree is sound if its spans lie in the file and every child lies inside its parent
(`InFile`, `Enclosed`). Nothing else is asked of it here: siblings may overlap, a span may be
empty, and two may be equal. `insert_sound` says what one insertion makes of such a tree: it
answers, the tree is sound again, the node stands among siblings of which none lies inside it
(`Stands`), the nodes are those of before and the pieces of the texts that were cut
(`insert_headsAll`), the pieces show what the texts have shown (`Recut`), and the order of the
siblings is kept if no text reaches over the next sibling. A run of insertions keeps a tree
sound as well (`insertAll_sound`).
-/

namespace SyntaxForest.Template

open SyntaxForest.Template.Span (ofTree)
open SyntaxForest.Tree (preorderAll headsAll)

variable {s : Source} {span text cut : Span} {t t' u w q root : Tree}
variable {old new cs : List Tree} {size : Nat}

/-! ## Children inside their parents -/

/-- What becomes of a sibling is enclosed. -/
theorem Enclosed.of_mem_cutAt (h : Enclosed t) (hcut : cut.start ≤ cut.stop)
    (hq : q ∈ cutAt s cut t) : Enclosed q := by
  rcases mem_cutAt hcut hq with ⟨rfl, -⟩ | ⟨-, hpiece⟩
  · exact h
  · exact (laid_of_isTextLeaf hpiece.leaf).inside

/-- **A node placed inside another** leaves its children inside. -/
theorem place_enclosed (hw : Enclosed w) (hu : Enclosed u)
    (hinside : (ofTree w).contains (ofTree u) = true) : Enclosed (place u w) := by
  have hat := place_atHome u w
  refine hat.enclosed hw hinside (fun c hc => ?_) fun c hc o ho hall => ?_
  · rcases mem_insertByStart.mp hc with rfl | hc
    · exact hu
    · exact hat.old_enclosed hw c hc
  · rcases mem_insertByStart.mp hc with rfl | hc
    · exact ho
    · exact hall c hc

/-- A node encloses what it takes over. -/
theorem wholeOf_enclosed (hcut : (ofTree t).start ≤ (ofTree t).stop) (ht : Enclosed t)
    (hcs : ∀ c ∈ cs, Enclosed c) : Enclosed (wholeOf s t cs) := by
  refine (wholeOf_induction (motive := fun w => w.head = t.head ∧ Enclosed w) ⟨rfl, ht⟩
    fun w hw u hu => ?_).2
  obtain ⟨⟨c, hc, huc⟩, hinside⟩ := mem_insideOf.mp hu
  refine ⟨(place_head u w).trans hw.1, place_enclosed hw.2 ((hcs c hc).of_mem_cutAt hcut huc) ?_⟩
  rwa [ofTree_of_head hw.1]

/-- **An insertion leaves every child inside its parent.** -/
theorem insert_enclosed (hcut : (ofTree t).start ≤ (ofTree t).stop) (hroot : Enclosed root)
    (ht : Enclosed t) (hwithin : (ofTree root).contains (ofTree t) = true) :
    Enclosed (insert s t root) := by
  have hat := insert_atHome s t root
  have hold := hat.old_enclosed hroot
  refine hat.enclosed hroot hwithin (fun c hc => ?_) fun c hc o ho hall => ?_
  · rcases mem_insertAmong hc with rfl | hc
    · exact wholeOf_enclosed hcut ht hold
    · obtain ⟨⟨d, hd, hcd⟩, -⟩ := mem_outsideOf.mp hc
      exact (hold d hd).of_mem_cutAt hcut hcd
  · rcases mem_insertAmong hc with rfl | hc
    · rwa [ofTree_of_head (wholeOf_head ..)]
    · obtain ⟨⟨d, hd, hcd⟩, -⟩ := mem_outsideOf.mp hc
      exact Span.contains_trans (hall d hd) (contains_of_mem_cutAt hcut hcd)

/-! ## Spans in the file -/

/-- A span that lies in a file of some size. -/
def Span.Within (size : Nat) (span : Span) : Prop :=
  0 ≤ span.start ∧ span.start ≤ span.stop ∧ span.stop ≤ size

instance (size : Nat) : DecidablePred (Span.Within size) := fun span => inferInstanceAs
  (Decidable (0 ≤ span.start ∧ span.start ≤ span.stop ∧ span.stop ≤ size))

/-- **Every span of a tree lies in a file** of some size. -/
def InFile (size : Nat) (t : Tree) : Prop := ∀ u ∈ t.preorder, (ofTree u).Within size

instance (size : Nat) : DecidablePred (InFile size) := fun t => inferInstanceAs
  (Decidable (∀ u ∈ t.preorder, (ofTree u).Within size))

/-- An insertion leaves the file. -/
theorem insert_inFile (hroot : InFile size root) (ht : InFile size t) :
    InFile size (insert s t root) := by
  have hself : (ofTree t).Within size := ht t t.mem_preorder_self
  rw [InFile, forall_preorder_iff] at hroot ht ⊢
  have hkept : Kept s (ofTree t) fun u => (ofTree u).Within size :=
    Inherited.kept hself.2.1 fun x q _ hpiece hx =>
      ⟨Int.le_trans hx.1 hpiece.low, Int.le_of_lt hpiece.nonempty,
        Int.le_trans hpiece.high hx.2.2⟩
  refine ⟨?_, forall_insert hself.2.1 (fun u u' hhead _ _ hu => ?_) hkept (fun w hw => ?_) ht.2
    hroot.2⟩
  · rw [(insert_atHome s t root).ofTree_eq]
    exact hroot.1
  · rwa [ofTree_of_head hhead]
  · rwa [ofTree_of_head hw]

/-! ## The pieces of a text -/

theorem not_blank_of_shows {view : Bytes} {i : Nat} (h : shows view i = true) :
    (view[i]?).any Bytes.isBlank = false := by
  obtain ⟨b, hb, hblank⟩ := (Option.any_eq_true ..).mp h
  rwa [hb, Option.any_some, ← Bool.not_eq_true']

theorem pastBlanks_le {view : Bytes} {low stop i : Nat} (hlow : low ≤ i)
    (h : (view[i]?).any Bytes.isBlank = false) : pastBlanks view low stop ≤ i := by
  fun_induction pastBlanks view low stop with
  | case1 low hlt hblank ih =>
    refine ih (Nat.lt_of_le_of_ne hlow ?_)
    rintro rfl
    rw [h] at hblank
    cases hblank
  | case2 => exact hlow
  | case3 => exact hlow

theorem lt_beforeBlanks {view : Bytes} {low n i : Nat} (hi : i < n)
    (h : (view[i]?).any Bytes.isBlank = false) : i < beforeBlanks view low n := by
  fun_induction beforeBlanks view low n with
  | case1 => exact hi
  | case2 n hn ih =>
    refine ih (Nat.lt_of_le_of_ne (Nat.le_of_lt_succ hi) ?_)
    rintro rfl
    rw [h] at hn
    cases hn.2
  | case3 => exact hi

/-- **The piece of a range** covers what the view shows in it. -/
theorem piece?_covers {start stop : Int} {i : Nat} (hstart : start ≤ i) (hstop : i < stop)
    (h : shows s.view i = true) :
    ∃ q ∈ piece? s start stop, (ofTree q).start ≤ i ∧ i < (ofTree q).stop := by
  have hlow : pastBlanks s.view start.toNat stop.toNat ≤ i :=
    pastBlanks_le (by omega) (not_blank_of_shows h)
  have hhigh : i < beforeBlanks s.view (pastBlanks s.view start.toNat stop.toNat) stop.toNat :=
    lt_beforeBlanks (by omega) (not_blank_of_shows h)
  unfold piece?
  dsimp only
  rw [if_pos (Nat.lt_of_le_of_lt hlow hhigh)]
  refine ⟨_, rfl, ?_⟩
  rw [ofTree_spanProperties]
  exact ⟨Int.ofNat_le.mpr hlow, Int.ofNat_lt.mpr hhigh⟩

/-- **A text that is cut**: its pieces are texts inside it, none reaches over an end of the cut,
each ends before the next begins, and together they cover what the view shows of the text. -/
structure Recut (view : Bytes) (text cut : Span) (pieces : List Tree) : Prop where
  piece : ∀ q ∈ pieces, IsPiece text cut q
  ordered : pieces.Pairwise fun a b => (ofTree a).stop ≤ (ofTree b).start
  covers : ∀ i : Nat, text.start ≤ i → i < text.stop → shows view i = true →
    ∃ q ∈ pieces, (ofTree q).start ≤ i ∧ i < (ofTree q).stop

/-- **A text that is cut** is covered by its pieces. -/
theorem cutText_recut (s : Source) (text : Span) (hcut : cut.start ≤ cut.stop) :
    Recut s.view text cut (cutText s text cut) := by
  obtain ⟨hpieces, hordered⟩ := cutText_spec s text hcut
  refine ⟨hpieces, hordered, fun i hstart hstop hshows => ?_⟩
  have hmem : ∀ low high : Int, piece? s low high ∈
      [piece? s text.start (min text.stop cut.start),
        piece? s (max text.start cut.start) (min text.stop cut.stop),
        piece? s (max text.start cut.stop) text.stop] → low ≤ i → i < high →
      ∃ q ∈ cutText s text cut, (ofTree q).start ≤ i ∧ i < (ofTree q).stop := by
    intro low high hin hlow hhigh
    obtain ⟨q, hq, hcovers⟩ := piece?_covers hlow hhigh hshows
    exact ⟨q, List.mem_filterMap.mpr ⟨_, hin, hq⟩, hcovers⟩
  rcases Int.lt_or_le i cut.start with hbefore | hbehind
  · exact hmem _ _ (.head _) hstart (by omega)
  · rcases Int.lt_or_le i cut.stop with hwithin | hafter
    · exact hmem _ _ (.tail _ (.head _)) (by omega) (by omega)
    · exact hmem _ _ (.tail _ (.tail _ (.head _))) (by omega) hstop

/-! ## Where the pieces come to lie -/

/-- **A text leaf stays where it is** unless it is among what is replaced: nothing is put below
it. -/
theorem AtHome.mem_of_isTextLeaf (hin : AtHome span old new t t') (hleaf : isTextLeaf q = true)
    (hq : q ∈ preorderAll t.children) : q ∈ preorderAll t'.children ∨ q ∈ preorderAll old := by
  induction hin with
  | here => exact .inr hq
  | @under kind props before after u u' hnone hu hin ih =>
    change q ∈ preorderAll (before ++ u :: after) at hq
    show q ∈ preorderAll (before ++ u' :: after) ∨ _
    rw [Tree.preorderAll_append, Tree.preorderAll_cons, Tree.preorder_eq] at hq ⊢
    simp only [List.mem_append, List.mem_cons] at hq ⊢
    rcases hq with hq | (rfl | hq) | hq
    · exact .inl (.inl hq)
    · rw [isContainer, hleaf] at hu
      cases hu
    · exact (ih hq).imp_left fun hq => .inr (.inl (.inr hq))
    · exact .inl (.inr (.inr hq))

theorem mem_place_self (u w : Tree) : u ∈ preorderAll (place u w).children :=
  (place_atHome u w).mem_of_new
    (Tree.mem_preorderAll_of_mem (mem_insertByStart.mpr (.inl rfl)))

/-- Placing a node loses no text. -/
theorem mem_place_of_isTextLeaf (u : Tree) (hleaf : isTextLeaf q = true)
    (hq : q ∈ preorderAll w.children) : q ∈ preorderAll (place u w).children := by
  have hat := place_atHome u w
  refine (hat.mem_of_isTextLeaf hleaf hq).elim id fun hold => hat.mem_of_new ?_
  obtain ⟨c, hc, hqc⟩ := Tree.mem_preorderAll.mp hold
  exact Tree.mem_preorderAll.mpr ⟨c, mem_insertByStart.mpr (.inr hc), hqc⟩

/-- **A text inside an inserted node** comes to lie below it. -/
theorem mem_wholeOf_of_isTextLeaf (hleaf : isTextLeaf q = true) (hq : q ∈ insideOf s t cs) :
    q ∈ preorderAll (wholeOf s t cs).children := by
  have hstay : ∀ (us : List Tree) (w : Tree), q ∈ us ∨ q ∈ preorderAll w.children →
      q ∈ preorderAll (us.foldl (fun t u => place u t) w).children := by
    intro us
    induction us with
    | nil => exact fun w h => h.resolve_left List.not_mem_nil
    | cons u us ih =>
      rintro w (h | h)
      · rcases List.mem_cons.mp h with rfl | h
        · exact ih _ (.inr (mem_place_self q w))
        · exact ih _ (.inl h)
      · exact ih _ (.inr (mem_place_of_isTextLeaf u hleaf h))
  exact hstay _ t (.inl hq)

/-- **Where an inserted node stands**: as `w`, with what it took in below it, between the
siblings `before` and `after`, at the end of the way down. None of them lies inside it, only a
text contains it, and the pieces of the texts that it cuts are below it or beside it. -/
structure Stands (s : Source) (t root : Tree) (before : List Tree) (w : Tree) (after : List Tree) :
    Prop where
  home : AtHome (ofTree t) (siblingsAt (ofTree t) root) (before ++ w :: after) root
    (insert s t root)
  head : w.head = t.head
  below : (headsAll w.children).Perm
    (headsAll (t.children ++ insideOf s t (siblingsAt (ofTree t) root)))
  around : before ++ after = outsideOf s t (siblingsAt (ofTree t) root)
  beside : ∀ v ∈ before ++ after, (ofTree t).contains (ofTree v) = false
    ∧ ((ofTree v).contains (ofTree t) = true → isTextLeaf v = true)
  pieces : ∀ q ∈ pieces s t (siblingsAt (ofTree t) root),
    if (ofTree t).contains (ofTree q) then q ∈ preorderAll w.children else q ∈ before ++ after

theorem mem_cutSiblings_of_mem_pieces (hq : q ∈ pieces s t cs) : q ∈ cutSiblings s t cs := by
  obtain ⟨x, hx, hqx⟩ := List.mem_flatMap.mp hq
  obtain ⟨hmem, hleaf, hover⟩ := mem_overlapped.mp hx
  refine mem_cutSiblings.mpr ⟨x, hmem, ?_⟩
  rw [cutAt, hleaf, hover]
  exact hqx

/-- **The node stands** among the siblings outside it, where an insertion has put it. -/
theorem insert_stands (hcut : (ofTree t).start ≤ (ofTree t).stop) :
    ∃ before w after, Stands s t root before w after := by
  have hat := insert_atHome s t root
  have haround := List.takeWhile_append_dropWhile
    (p := fun u => decide ((ofTree u).start < (ofTree t).start))
    (l := outsideOf s t (siblingsAt (ofTree t) root))
  refine ⟨_, wholeOf s t (siblingsAt (ofTree t) root), _, insertAmong_eq s t _ ▸ hat,
    wholeOf_head .., headsAll_wholeOf_children .., haround, ?_, ?_⟩
  · rw [haround]
    intro v hv
    obtain ⟨⟨c, hc, hvc⟩, hout⟩ := mem_outsideOf.mp hv
    refine ⟨hout, fun hcontains => ?_⟩
    rcases mem_cutAt hcut hvc with ⟨rfl, -⟩ | ⟨-, hpiece⟩
    · by_contra hleaf
      exact not_contains_of_isContainer (hat.old_none v hc) (eq_false_of_ne_true hleaf) hcontains
    · exact hpiece.leaf
  · rw [haround]
    intro q hq
    have hmem := mem_cutSiblings_of_mem_pieces hq
    obtain ⟨x, -, hqx⟩ := List.mem_flatMap.mp hq
    split
    · next hin =>
      exact mem_wholeOf_of_isTextLeaf ((cutText_recut s _ hcut).piece q hqx).leaf
        (List.mem_filter.mpr ⟨hmem, hin⟩)
    · next hout =>
      exact List.mem_filter.mpr ⟨hmem, by rw [eq_false_of_ne_true hout]; rfl⟩

/-! ## Order -/

/-- **A text ends before a sibling begins.** -/
def Clears (a b : Tree) : Prop := isTextLeaf a = true → (ofTree a).stop ≤ (ofTree b).start

instance : DecidableRel Clears := fun a b =>
  inferInstanceAs (Decidable (isTextLeaf a = true → (ofTree a).stop ≤ (ofTree b).start))

/-- In order, a text that ends before the next sibling begins ends before all later ones. -/
theorem clears_pairwise (hord : cs.Pairwise StartsBefore) (hclear : cs.IsChain Clears) :
    cs.Pairwise Clears := by
  induction cs with
  | nil => exact .nil
  | cons a rest ih =>
    cases rest with
    | nil => exact List.pairwise_singleton ..
    | cons b rest =>
      obtain ⟨hnext, hclear⟩ := List.isChain_cons_cons.mp hclear
      have hrest := hord.of_cons
      refine List.pairwise_cons.mpr ⟨fun c hc hleaf => ?_, ih hrest hclear⟩
      rcases List.mem_cons.mp hc with rfl | hc
      · exact hnext hleaf
      · exact Int.le_trans (hnext hleaf) (List.rel_of_pairwise_cons hrest hc)

/-- What becomes of two siblings in order stays in order if the first is no text that reaches
over the second. -/
theorem startsBefore_of_clears {a b p : Tree} (hcut : cut.start ≤ cut.stop) (hord : StartsBefore a b)
    (hclear : Clears a b) (hq : q ∈ cutAt s cut a) (hp : p ∈ cutAt s cut b) : StartsBefore q p := by
  unfold StartsBefore at *
  have hb := (Span.contains_iff.mp (contains_of_mem_cutAt hcut hp)).1
  rcases mem_cutAt hcut hq with ⟨rfl, -⟩ | ⟨hleaf, hpiece⟩
  · omega
  · have hstop := Int.lt_of_lt_of_le hpiece.nonempty hpiece.high
    have := hclear hleaf
    omega

/-- **An insertion overtakes nothing** if every text among the siblings ends before the next one
begins. -/
theorem not_overtakes_of_clears (hcut : (ofTree t).start ≤ (ofTree t).stop)
    (hord : (siblingsAt (ofTree t) root).Pairwise StartsBefore)
    (hclear : (siblingsAt (ofTree t) root).IsChain Clears) : ¬ Overtakes s t root := by
  rintro ⟨a, b, hsub, q, hq, p, hp, -, -, hlt⟩
  have hstarts : StartsBefore a b := List.pairwise_iff_forall_sublist.mp hord hsub
  have hends : Clears a b := List.pairwise_iff_forall_sublist.mp (clears_pairwise hord hclear) hsub
  exact Int.not_le.mpr hlt (startsBefore_of_clears hcut hstarts hends hq hp)

/-! ## One insertion -/

/-- **One insertion keeps a tree sound.** It answers, all spans lie in the file and inside their
parents' again, the node stands where its span is at home, no node is lost or made but for the
texts that are cut, whose pieces cover what they have shown, and siblings in order stay in order
exactly if none is overtaken. -/
theorem insert_sound (hsize : s.view.size = s.bytes.size) (hroot : InFile s.bytes.size root)
    (ht : InFile s.bytes.size t) (hroot_enclosed : Enclosed root) (ht_enclosed : Enclosed t)
    (hwithin : (ofTree root).contains (ofTree t) = true) :
    insert? s t root = .ok (insert s t root)
      ∧ InFile s.bytes.size (insert s t root) ∧ Enclosed (insert s t root)
      ∧ (∃ before w after, Stands s t root before w after)
      ∧ (headsAll (insert s t root :: overlapped t (siblingsAt (ofTree t) root))).Perm
        (headsAll (root :: t :: pieces s t (siblingsAt (ofTree t) root)))
      ∧ (∀ x ∈ overlapped t (siblingsAt (ofTree t) root),
        Recut s.view (ofTree x) (ofTree t) (cutText s (ofTree x) (ofTree t)))
      ∧ (InOrder root → InOrder t → (InOrder (insert s t root) ↔ ¬ Overtakes s t root)
        ∧ ((siblingsAt (ofTree t) root).IsChain Clears → InOrder (insert s t root))) := by
  have hcut : (ofTree t).start ≤ (ofTree t).stop := (ht t t.mem_preorder_self).2.1
  have hoverruns : overruns s (ofTree t) root = false := by
    refine overruns_eq_false s _ fun u hu _ => ?_
    rw [EndsBy, hsize]
    exact (hroot u (Tree.mem_preorder_of_below hu)).2.2
  refine ⟨?_, insert_inFile hroot ht, insert_enclosed hcut hroot_enclosed ht_enclosed hwithin,
    insert_stands hcut, insert_headsAll s t root, fun x _ => cutText_recut s _ hcut,
    fun hroot_inOrder ht_inOrder => ?_⟩
  · rw [insert?, hoverruns]
    rfl
  · have hiff := insert_inOrder_iff (s := s) hcut hroot_inOrder ht_inOrder
    refine ⟨hiff, fun hclear => hiff.mpr (not_overtakes_of_clears hcut ?_ hclear)⟩
    exact ((insert_atHome s t root).old_everywhere hroot_inOrder).1

/-- Two texts and an element between them, `abcd <b/> ef`. -/
def sampleSource : Source :=
  let bytes := #[0x61, 0x62, 0x63, 0x64, 0x20, 0x3C, 0x62, 0x2F, 0x3E, 0x20, 0x65, 0x66]
  ⟨bytes, bytes, LineIndex.ofSource bytes⟩

/-- A node that spans a range. -/
def spannedNode (kind : String) (start stop : Int) (children : List Tree) : Tree :=
  .node kind (spanProperties sampleSource.lines ⟨start, stop⟩) children

def sampleRoot : Tree := spannedNode "Document" 0 12
  [spannedNode "Text" 0 4 [], spannedNode "Element" 5 9 [], spannedNode "Text" 10 12 []]

/-- A block over the end of the first text, the element, and the beginning of the second text. -/
def sampleBlock : Tree := spannedNode "CodeBlock" 2 11 [spannedNode "Identifier" 2 3 []]

/-- A block over the end of one text and the beginning of another cuts both. -/
theorem insert_sound_sample :
    insert? sampleSource sampleBlock sampleRoot = .ok (insert sampleSource sampleBlock sampleRoot)
      ∧ InFile 12 (insert sampleSource sampleBlock sampleRoot)
      ∧ Enclosed (insert sampleSource sampleBlock sampleRoot)
      ∧ InOrder (insert sampleSource sampleBlock sampleRoot)
      ∧ (insert sampleSource sampleBlock sampleRoot).preorder.map (fun u => (u.kind, ofTree u))
        = [("Document", ⟨0, 12⟩), ("Text", ⟨0, 2⟩), ("CodeBlock", ⟨2, 11⟩), ("Text", ⟨2, 4⟩),
          ("Identifier", ⟨2, 3⟩), ("Element", ⟨5, 9⟩), ("Text", ⟨10, 11⟩), ("Text", ⟨11, 12⟩)] := by
  obtain ⟨hanswers, hfile, henclosed, -, -, -, horder⟩ :=
    @insert_sound sampleSource sampleBlock sampleRoot rfl (by decide +kernel) (by decide +kernel)
      (by decide +kernel) (by decide +kernel) (by decide +kernel)
  exact ⟨hanswers, hfile, henclosed,
    (horder (by decide +kernel) (by decide +kernel)).2 (by decide +kernel), by decide +kernel⟩

/-! ## A run of insertions -/

/-- **Any number of insertions** keeps a tree sound. -/
theorem insertAll_sound {nodes : List Tree} (hroot : InFile size root)
    (hroot_enclosed : Enclosed root)
    (hnodes : ∀ t ∈ nodes, InFile size t ∧ Enclosed t ∧ (ofTree root).contains (ofTree t) = true) :
    InFile size (insertAll s root nodes) ∧ Enclosed (insertAll s root nodes) := by
  have hrun := List.foldlRecOn (motive := fun r => r.head = root.head ∧ InFile size r ∧ Enclosed r)
    nodes (fun root t => insert s t root) ⟨rfl, hroot, hroot_enclosed⟩ fun r hr t ht => by
      obtain ⟨ht, ht_enclosed, hwithin⟩ := hnodes t ht
      rw [← ofTree_of_head hr.1] at hwithin
      exact ⟨((insert_atHome s t r).head_eq).trans hr.1, insert_inFile hr.2.1 ht,
        insert_enclosed (ht t t.mem_preorder_self).2.1 hr.2.2 ht_enclosed hwithin⟩
  exact hrun.2

end SyntaxForest.Template
