import SyntaxForest.Proofs.Template.Siblings

/-!
# The nodes that an insertion comes through

On its way down an insertion comes through one node of each level, the first that
contains the span. `pathTo` lists them. What is inserted ends up below all of them, so
the path says below which nodes it will stand.

Two facts make the path of a span last. Inserting a node adds the node to the path of
its own span (`pathTo_insert_self`), and it leaves the path of every span that starts
before it alone (`pathTo_insert`): the node itself does not contain such a span, nor
does anything that moves below it.
-/

namespace SyntaxForest

namespace Template

open SyntaxForest.Template.Span (ofTree)
open SyntaxForest.Tree (preorderAll)

variable {s : Source} {span inner : Span} {t t' u root : Tree} {cs old new : List Tree}
variable {h : String × Properties}

mutual

/-- **The heads of the nodes that a span comes through**, from the root down to where
it is at home. -/
def pathTo (span : Span) : Tree → List (String × Properties)
  | .node kind props children => (kind, props) :: pathBelow span children

/-- The heads from the first of several nodes that contains the span, if one does. -/
def pathBelow (span : Span) : List Tree → List (String × Properties)
  | [] => []
  | u :: rest => if isContainer span u then pathTo span u else pathBelow span rest

end

/-- A path begins with the node and goes on among its children. -/
theorem pathTo_eq (span : Span) (t : Tree) :
    pathTo span t = t.head :: pathBelow span t.children := by
  cases t
  rfl

/-- The path goes through the first container. -/
theorem pathBelow_eq (span : Span) (cs : List Tree) :
    pathBelow span cs = (cs.find? (isContainer span)).elim [] (pathTo span) := by
  induction cs with
  | nil => rfl
  | cons u rest ih =>
    rw [pathBelow, List.find?_cons]
    by_cases hu : isContainer span u = true
    · rw [if_pos hu, hu]
      rfl
    · rw [if_neg hu, eq_false_of_ne_true hu]
      exact ih

/-- What is on a path is the head of a node of the tree. -/
theorem exists_of_mem_pathTo (hh : h ∈ pathTo span t) : ∃ v ∈ t.preorder, v.head = h := by
  induction t using Tree.childrenInduction with
  | h t ih =>
    rw [pathTo_eq, List.mem_cons, pathBelow_eq] at hh
    rcases hh with rfl | hh
    · exact ⟨t, t.mem_preorder_self, rfl⟩
    · cases hfind : t.children.find? (isContainer span) with
      | none => rw [hfind] at hh; cases hh
      | some c =>
        rw [hfind] at hh
        have hc := List.mem_of_find?_eq_some hfind
        obtain ⟨v, hv, hhead⟩ := ih c hc hh
        exact ⟨v, Tree.mem_preorder_of_below (Tree.mem_preorderAll_of_preorder
          (Tree.mem_preorderAll_of_mem hc) hv), hhead⟩

theorem pathBelow_of_none (hnone : ∀ u ∈ cs, isContainer span u = false) :
    pathBelow span cs = [] := by
  have hfind : cs.find? (isContainer span) = none := by
    rw [List.find?_eq_none]
    exact fun u hu => Bool.eq_false_iff.mp (hnone u hu)
  rw [pathBelow_eq, hfind]
  rfl

/-- Nodes in front that do not contain the span do not matter. -/
theorem pathBelow_append (hnone : ∀ u ∈ cs, isContainer span u = false) (rest : List Tree) :
    pathBelow span (cs ++ rest) = pathBelow span rest := by
  induction cs with
  | nil => rfl
  | cons u cs ih =>
    obtain ⟨hu, hcs⟩ := List.forall_mem_cons.mp hnone
    rw [List.cons_append, pathBelow, if_neg (Bool.eq_false_iff.mp hu), ih hcs]

/-- A path goes on through the first child that holds the span. -/
theorem pathBelow_cons_of_container (hu : isContainer span u = true) :
    pathBelow span (u :: cs) = pathTo span u := by
  rw [pathBelow, if_pos hu]

/-- A node that does not contain the span can be left out. -/
theorem pathBelow_around (hu : isContainer span u = false) (before after : List Tree) :
    pathBelow span (before ++ u :: after) = pathBelow span (before ++ after) := by
  rw [pathBelow_eq, pathBelow_eq, List.find?_append, List.find?_append, List.find?_cons, hu]

/-! ## Along the way -/

namespace AtHome

/-- A node on the way contains what it contained. -/
theorem isContainer_eq (hin : AtHome span old new u t') (hu : isContainer span u = true)
    (hne : new ≠ []) : isContainer inner t' = isContainer inner u := by
  unfold isContainer
  rw [hin.not_isTextLeaf hne, hin.ofTree_eq, (isContainer_iff.mp hu).1]

/-- **The path of the span itself** goes on where it ended. -/
theorem pathTo_self (hin : AtHome span old new t t') (hne : new ≠ []) :
    pathTo span t' = pathTo span t ++ pathBelow span new := by
  induction hin with
  | here hnone => rw [pathTo, pathTo, pathBelow_of_none hnone, List.singleton_append]
  | under hnone hu hin ih =>
    rw [pathTo, pathTo, pathBelow_append hnone, pathBelow_append hnone,
      pathBelow_cons_of_container hu,
      pathBelow_cons_of_container ((hin.isContainer_eq hu hne).trans hu), ih, List.cons_append]

/-- **The path of another span** is what it was, if it is where the change is made. -/
theorem pathTo_eq (hin : AtHome span old new t t') (hne : new ≠ [])
    (hnew : pathBelow inner new = pathBelow inner old) : pathTo inner t' = pathTo inner t := by
  induction hin with
  | here => rw [pathTo, pathTo, hnew]
  | @under kind props before after u u' _ hu hin ih =>
    have hsame : isContainer inner u' = isContainer inner u := hin.isContainer_eq hu hne
    rw [pathTo, pathTo]
    congr 1
    rw [pathBelow_eq, pathBelow_eq, List.find?_append, List.find?_append, List.find?_cons,
      List.find?_cons, hsame]
    cases before.find? (isContainer inner) with
    | some b => rfl
    | none =>
      cases isContainer inner u with
      | true => exact ih
      | false => rfl

end AtHome

/-! ## Among siblings -/

theorem isContainer_of_isTextLeaf (hu : isTextLeaf u = true) : isContainer span u = false := by
  rw [isContainer, hu]
  rfl

theorem isContainer_of_start_lt (hu : span.start < (ofTree u).start) :
    isContainer span u = false := by
  rw [Bool.eq_false_iff]
  intro hcontainer
  have := (isContainer_iff.mp hcontainer).2.1
  omega

/-- **A cut does not change a path**: text contains nothing. -/
theorem pathBelow_cutSiblings (hcut : (ofTree t).start ≤ (ofTree t).stop) :
    pathBelow inner (cutSiblings s t cs) = pathBelow inner cs := by
  induction cs with
  | nil => rfl
  | cons c cs ih =>
    rw [cutSiblings, List.flatMap_cons, ← cutSiblings]
    by_cases hleaf : isTextLeaf c = true ∧ (ofTree c).overlaps (ofTree t) = true
    · have hpieces : ∀ q ∈ cutAt s (ofTree t) c, isContainer inner q = false := by
        intro q hq
        refine isContainer_of_isTextLeaf ?_
        rcases mem_cutAt hcut hq with ⟨rfl, -⟩ | ⟨-, hpiece⟩
        · exact hleaf.1
        · exact hpiece.leaf
      rw [pathBelow_append hpieces, ih, pathBelow,
        if_neg (Bool.eq_false_iff.mp (isContainer_of_isTextLeaf hleaf.1))]
    · have hkept : cutAt s (ofTree t) c = [c] := by
        unfold cutAt
        dsimp only
        rw [if_neg]
        rwa [Bool.and_eq_true]
      rw [hkept, List.singleton_append, pathBelow, pathBelow, ih]

/-- Nodes that do not contain the span can be left out. -/
theorem pathBelow_filter {keep : Tree → Bool}
    (hdropped : ∀ u ∈ cs, keep u = false → isContainer span u = false) :
    pathBelow span (cs.filter keep) = pathBelow span cs := by
  induction cs with
  | nil => rfl
  | cons u cs ih =>
    obtain ⟨hu, hcs⟩ := List.forall_mem_cons.mp hdropped
    rw [List.filter_cons]
    cases hkeep : keep u with
    | true => rw [if_pos rfl, pathBelow, pathBelow, ih hcs]
    | false =>
      rw [if_neg (by decide), ih hcs, pathBelow, if_neg (Bool.eq_false_iff.mp (hu hkeep))]

/-- What an inserted node takes in does not contain a span that starts before it. -/
theorem pathBelow_outsideOf (hcut : (ofTree t).start ≤ (ofTree t).stop)
    (hlow : inner.start < (ofTree t).start) :
    pathBelow inner (outsideOf s t cs) = pathBelow inner cs := by
  rw [outsideOf, pathBelow_filter, pathBelow_cutSiblings hcut]
  intro u _ hu
  rw [Bool.not_eq_false', Span.contains_iff] at hu
  exact isContainer_of_start_lt (Int.lt_of_lt_of_le hlow hu.1)

/-- **An insertion behind the beginning of a span** leaves the path to the span as it is. -/
theorem pathBelow_insertAmong (hcut : (ofTree t).start ≤ (ofTree t).stop)
    (hlow : inner.start < (ofTree t).start) :
    pathBelow inner (insertAmong s t cs) = pathBelow inner cs := by
  have hwhole : isContainer inner (wholeOf s t cs) = false := by
    refine isContainer_of_start_lt ?_
    rw [ofTree_of_head (wholeOf_head s t cs)]
    exact hlow
  rw [insertAmong_eq, pathBelow_around hwhole, List.takeWhile_append_dropWhile,
    pathBelow_outsideOf hcut hlow]

/-- Among siblings that do not contain it, an inserted node is the first that does. -/
theorem pathBelow_insertAmong_self (hne : (ofTree t).start < (ofTree t).stop)
    (hkind : t.kind ≠ "Text") (hnone : ∀ u ∈ cs, isContainer (ofTree t) u = false) :
    pathBelow (ofTree t) (insertAmong s t cs) = pathTo (ofTree t) (wholeOf s t cs) := by
  have hhead := wholeOf_head s t cs
  have hcontainer : isContainer (ofTree t) (wholeOf s t cs) = true := by
    refine isContainer_iff.mpr ⟨not_isTextLeaf_of_kind ?_, ?_⟩
    · rw [show (wholeOf s t cs).kind = t.kind from congrArg Prod.fst hhead]
      exact hkind
    · rw [ofTree_of_head hhead]
      exact ⟨Int.le_refl _, Int.le_refl _⟩
  have hout : ∀ u ∈ outsideOf s t cs, isContainer (ofTree t) u = false := by
    intro u hu
    obtain ⟨⟨c, hc, huc⟩, -⟩ := mem_outsideOf.mp hu
    rcases mem_cutAt (Int.le_of_lt hne) huc with ⟨rfl, -⟩ | ⟨-, hpiece⟩
    · exact hnone u hc
    · exact isContainer_of_isTextLeaf hpiece.leaf
  rw [insertAmong_eq, pathBelow_append fun u hu => hout u ((List.takeWhile_sublist _).subset hu),
    pathBelow_cons_of_container hcontainer]

/-! ## Insertions -/

/-- **An insertion puts the node on the path of its span.** -/
theorem pathTo_insert_self (hne : (ofTree t).start < (ofTree t).stop) (hkind : t.kind ≠ "Text") :
    pathTo (ofTree t) (insert s t root) = pathTo (ofTree t) root
      ++ pathTo (ofTree t) (wholeOf s t (siblingsAt (ofTree t) root)) := by
  have hat := insert_atHome s t root
  rw [hat.pathTo_self (insertAmong_ne_nil _ _ _),
    pathBelow_insertAmong_self hne hkind hat.old_none]

/-- **An insertion leaves the paths of spans that start before it.** -/
theorem pathTo_insert (hcut : (ofTree t).start ≤ (ofTree t).stop)
    (hlow : inner.start < (ofTree t).start) :
    pathTo inner (insert s t root) = pathTo inner root :=
  (insert_atHome s t root).pathTo_eq (insertAmong_ne_nil _ _ _) (pathBelow_insertAmong hcut hlow)

/-- An inserted node is on the path to its own span. -/
theorem head_mem_pathTo_insert (hne : (ofTree t).start < (ofTree t).stop)
    (hkind : t.kind ≠ "Text") : t.head ∈ pathTo (ofTree t) (insert s t root) := by
  rw [pathTo_insert_self hne hkind, List.mem_append, pathTo_eq _ (wholeOf s t _), wholeOf_head]
  exact .inr (List.mem_cons_self ..)

end Template

end SyntaxForest
