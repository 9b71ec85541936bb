import Mathlib.Data.List.DropRight
import SyntaxForest.Inventory.Declarations

/-!
# Lists kept in one text

A list of names is kept as one text, the names joined with a comma and a space, and is read back
by cutting at the commas. What is read back are the parts of the names (`splitList_join`): a name
comes back as itself if and only if it is *whole* (`flatMap_splitList_eq_iff`), that is, if it is
not empty, holds no comma and has no blanks at its ends. A name with a comma comes back in pieces,
and the list with more entries than it had.
-/

namespace SyntaxForest

open Text

/-- **A text that is one entry of a list**: it is not empty, holds no comma and has no blanks at
its ends. -/
def IsWhole (s : String) : Prop := s ≠ "" ∧ ',' ∉ s.toList ∧ trim s = s

instance (s : String) : Decidable (IsWhole s) := inferInstanceAs (Decidable (_ ∧ _ ∧ _))

namespace Text

/-! ## Trimming -/

theorem toList_trim (s : String) :
    (trim s).toList = (s.toList.dropWhile isBlank).rdropWhile isBlank := by
  simp only [trim, trimRight, trimRightBy, trimLeft, String.toList_ofList, List.rdropWhile]

theorem trim_space (cs : List Char) :
    trim (String.ofList (' ' :: cs)) = trim (String.ofList cs) := by
  refine String.toList_inj.mp ?_
  rw [toList_trim, toList_trim, String.toList_ofList, String.toList_ofList, List.dropWhile_cons,
    if_pos (by decide)]

/-- **A trimmed text** is left as it is. -/
theorem trim_trim (s : String) : trim (trim s) = trim s := by
  refine String.toList_inj.mp ?_
  rw [toList_trim (trim s), toList_trim s]
  generalize hfront : s.toList.dropWhile isBlank = front
  have hstart : front.dropWhile isBlank = front := by
    rw [← hfront, List.dropWhile_idempotent]
  -- what is left at the front is no blank, and cutting at the back leaves it there
  have hkept : (front.rdropWhile isBlank).dropWhile isBlank = front.rdropWhile isBlank := by
    rw [List.dropWhile_eq_self_iff] at hstart ⊢
    intro hlen
    have hpre := List.rdropWhile_prefix isBlank front
    rw [hpre.getElem]
    exact hstart _
  rw [hkept, List.rdropWhile_idempotent]

theorem mem_of_mem_trim {s : String} {c : Char} (h : c ∈ (trim s).toList) : c ∈ s.toList := by
  rw [toList_trim] at h
  exact (List.dropWhile_suffix _).subset ((List.rdropWhile_prefix _ _).subset h)

/-! ## Cutting at one character -/

variable {sep : Char} {piece : List Char}

theorem splitAfter_cons (c : Char) (rest : List Char) :
    splitAfter sep [] piece (c :: rest)
      = if sep = c then piece.reverse :: splitAfter sep [] [] rest
        else splitAfter sep [] (c :: piece) rest := by
  have hfront : dropFront? [sep] (c :: rest) = if sep = c then some rest else none := rfl
  rw [splitAfter]
  split
  · next left hfound =>
    rw [hfront, Option.ite_none_right_eq_some, Option.some.injEq] at hfound
    rw [if_pos hfound.1, hfound.2]
  · next hnone =>
    rw [hfront, ite_eq_right_iff] at hnone
    rw [if_neg fun h => Option.some_ne_none _ (hnone h)]

/-- **At a separator the pieces fall apart.** -/
theorem splitAfter_append (a b : List Char) : splitAfter sep [] piece (a ++ sep :: b)
    = splitAfter sep [] piece a ++ splitAfter sep [] [] b := by
  induction a generalizing piece with
  | nil => rw [List.nil_append, splitAfter_cons, if_pos rfl, splitAfter, List.singleton_append]
  | cons c rest ih =>
    rw [List.cons_append, splitAfter_cons, splitAfter_cons]
    split
    · rw [ih, List.cons_append]
    · exact ih

/-- What has been read goes to the first piece. -/
theorem splitAfter_eq_modifyHead (s : List Char) : splitAfter sep [] piece s
    = (splitAfter sep [] [] s).modifyHead (piece.reverse ++ ·) := by
  induction s generalizing piece with
  | nil => simp [splitAfter]
  | cons c rest ih =>
    rw [splitAfter_cons, splitAfter_cons]
    split
    · simp
    · rw [ih, @ih [c], List.modifyHead_modifyHead]
      congr
      funext l
      simp

theorem not_mem_splitAfter {s p : List Char} (hp : p ∈ splitAfter sep [] piece s)
    (hpiece : sep ∉ piece) : sep ∉ p := by
  induction s generalizing piece with
  | nil =>
    rw [splitAfter, List.mem_singleton] at hp
    rwa [hp, List.mem_reverse]
  | cons c rest ih =>
    rw [splitAfter_cons] at hp
    split at hp
    · rcases List.mem_cons.mp hp with rfl | hp
      · rwa [List.mem_reverse]
      · exact ih hp List.not_mem_nil
    · next hne => exact ih hp (List.not_mem_cons_of_ne_of_not_mem hne hpiece)

theorem splitAfter_of_not_mem {s : List Char} (h : sep ∉ s) :
    splitAfter sep [] piece s = [piece.reverse ++ s] := by
  induction s generalizing piece with
  | nil => rw [splitAfter, List.append_nil]
  | cons c rest ih =>
    obtain ⟨hne, hrest⟩ := not_or.mp (List.mem_cons.not.mp h)
    rw [splitAfter_cons, if_neg hne, ih hrest, List.reverse_cons, List.append_assoc]
    rfl

/-- **Words joined with a character** are what is cut out again, if none holds it. -/
theorem split_join {words : List String} (hne : words ≠ []) (h : ∀ w ∈ words, sep ∉ w.toList) :
    split (String.singleton sep) (join (String.singleton sep) words) = words := by
  have hsplit (s : String) : split (String.singleton sep) s
      = (splitAfter sep [] [] s.toList).map String.ofList := by
    rw [split, String.toList_singleton]
  match words with
  | [w] =>
    rw [join, hsplit, splitAfter_of_not_mem (h w (List.mem_singleton_self w)), List.reverse_nil,
      List.nil_append, List.map_singleton, String.ofList_toList]
  | w :: v :: rest =>
    have hlist : (join (String.singleton sep) (w :: v :: rest)).toList
        = w.toList ++ sep :: (join (String.singleton sep) (v :: rest)).toList := by
      simp [join]
    have hrest := split_join (List.cons_ne_nil v rest)
      fun u hu => h u (List.mem_cons_of_mem w hu)
    rw [hsplit] at hrest ⊢
    rw [hlist, splitAfter_append, splitAfter_of_not_mem (h w (List.mem_cons_self ..)),
      List.map_append, hrest, List.reverse_nil, List.nil_append, List.map_singleton,
      String.ofList_toList, List.singleton_append]

end Text

/-! ## Entries -/

theorem splitList_eq (s : String) : splitList "," s
    = ((splitAfter ',' [] [] s.toList).map fun p => trim (String.ofList p)).filter (· != "") := by
  change (((splitAfter ',' [] [] s.toList).map String.ofList).map trim).filter _ = _
  rw [List.map_map]
  rfl

/-- **A list of two texts** has the entries of both. -/
theorem splitList_append (a b : String) :
    splitList "," (a ++ ", " ++ b) = splitList "," a ++ splitList "," b := by
  have hlist : (a ++ ", " ++ b).toList = a.toList ++ ',' :: ' ' :: b.toList := by
    simp
  rw [splitList_eq, splitList_eq, splitList_eq, hlist, splitAfter_append, List.map_append,
    List.filter_append]
  -- the space behind the comma goes with the blanks
  have hspace : (splitAfter ',' [] [] (' ' :: b.toList)).map (fun p => trim (String.ofList p))
      = (splitAfter ',' [] [] b.toList).map fun p => trim (String.ofList p) := by
    rw [splitAfter_cons, if_neg (by decide), splitAfter_eq_modifyHead]
    cases splitAfter ',' [] [] b.toList with
    | nil => rfl
    | cons p rest => exact congrArg (· :: _) (trim_space p)
  rw [hspace]

/-- **What is read back from joined texts** are the entries of each. -/
theorem splitList_join (names : List String) :
    splitList "," (Text.join ", " names) = names.flatMap (splitList ",") := by
  match names with
  | [] => decide +kernel
  | [s] => rw [Text.join, List.flatMap_singleton]
  | s :: t :: rest =>
    have hjoin : Text.join ", " (s :: t :: rest) = s ++ ", " ++ Text.join ", " (t :: rest) := rfl
    rw [hjoin, splitList_append, splitList_join (t :: rest)]
    exact List.flatMap_cons.symm

/-- **An entry is whole.** -/
theorem isWhole_of_mem {s entry : String} (h : entry ∈ splitList "," s) : IsWhole entry := by
  rw [splitList_eq, List.mem_filter, List.mem_map, bne_iff_ne] at h
  obtain ⟨⟨p, hp, rfl⟩, hne⟩ := h
  refine ⟨hne, fun hmem => ?_, trim_trim _⟩
  have hin := mem_of_mem_trim hmem
  rw [String.toList_ofList] at hin
  exact not_mem_splitAfter hp List.not_mem_nil hin

theorem IsWhole.splitList {s : String} (h : IsWhole s) : splitList "," s = [s] := by
  obtain ⟨hne, hcomma, htrim⟩ := h
  rw [splitList_eq, splitAfter_of_not_mem hcomma, List.map_singleton, List.reverse_nil,
    List.nil_append, String.ofList_toList, htrim]
  exact List.filter_cons_of_pos (bne_iff_ne.mpr hne)

/-- **The entries of several texts are these texts** if and only if each is whole. -/
theorem flatMap_splitList_eq_iff {names : List String} :
    names.flatMap (splitList ",") = names ↔ ∀ s ∈ names, IsWhole s := by
  refine ⟨fun h s hs => ?_, fun h => ?_⟩
  · rw [← h] at hs
    obtain ⟨t, -, ht⟩ := List.mem_flatMap.mp hs
    exact isWhole_of_mem ht
  · rw [List.flatMap_congr fun s hs => (h s hs).splitList, List.flatMap_singleton']

end SyntaxForest
