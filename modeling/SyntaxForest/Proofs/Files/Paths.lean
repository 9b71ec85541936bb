import SyntaxForest.Files.Store

/-!
# Resolved paths

A resolved path begins at the root and takes no step back (`settled_resolve`), and resolving it
again leaves it as it is (`resolve_of_settled`). The same holds of the directory that it lies in.
Resolving a path does not change the suffix that tells what kind of file it is (`suffix_resolve`).
-/

namespace SyntaxForest

namespace Path

/-- One step along a way, given the names taken so far, the last one first. -/
def step (taken : List String) (n : String) : List String :=
  if n = ".." then taken.tail else n :: taken

theorem takeSteps_eq (names : List String) : takeSteps names = (names.foldl step []).reverse := rfl

theorem foldl_step_of_not_mem {names : List String} (h : ".." ∉ names) (taken : List String) :
    names.foldl step taken = names.reverse ++ taken := by
  induction names generalizing taken with
  | nil => rfl
  | cons n rest ih =>
    rw [List.mem_cons, not_or] at h
    rw [List.foldl_cons, step, if_neg fun hback => h.1 hback.symm, ih h.2, List.reverse_cons,
      List.append_assoc]
    rfl

theorem mem_foldl_step {names taken : List String} {n : String}
    (h : n ∈ names.foldl step taken) : n ∈ taken ∨ n ∈ names ∧ n ≠ ".." := by
  induction names generalizing taken with
  | nil => exact .inl h
  | cons first rest ih =>
    rcases ih h with htaken | ⟨hrest, hne⟩
    · unfold step at htaken
      split at htaken
      · exact .inl (List.mem_of_mem_tail htaken)
      · next hfirst =>
        rcases List.mem_cons.mp htaken with rfl | htaken
        · exact .inr ⟨List.mem_cons_self, hfirst⟩
        · exact .inl htaken
    · exact .inr ⟨List.mem_cons_of_mem _ hrest, hne⟩

theorem mem_takeSteps {names : List String} {n : String} (h : n ∈ takeSteps names) :
    n ∈ names ∧ n ≠ ".." := by
  rw [takeSteps_eq, List.mem_reverse] at h
  exact (mem_foldl_step h).resolve_left List.not_mem_nil

/-- **A path that leads straight down from the root.** -/
structure Settled (p : Path) : Prop where
  root : p.root = "/"
  back : ".." ∉ p.names

variable {here p : Path}

theorem settled_resolve (here p : Path) : (resolve here p).Settled :=
  ⟨rfl, fun h => (mem_takeSteps h).2 rfl⟩

theorem Settled.parent (h : p.Settled) : p.parent.Settled :=
  ⟨h.root, fun hin => h.back (List.dropLast_subset _ hin)⟩

theorem join_of_settled (h : p.Settled) (here : Path) : here.join p = p := by
  rw [join, isAbsolute, h.root]
  rfl

theorem resolve_of_settled (h : p.Settled) (here : Path) : resolve here p = p := by
  rw [resolve, join_of_settled h, takeSteps_eq, foldl_step_of_not_mem h.back, List.append_nil,
    List.reverse_reverse, ← h.root]

/-- The names of a path that is seen from another are names of the one or the other. -/
theorem mem_names_join {n : String} (h : n ∈ (here.join p).names) :
    n ∈ here.names ∨ n ∈ p.names := by
  unfold join at h
  split at h
  · exact .inr h
  · exact List.mem_append.mp h

/-! ## The last name -/

theorem getLast?_takeSteps_concat {names : List String} {n : String} (h : n ≠ "..") :
    (takeSteps (names ++ [n])).getLast? = some n := by
  rw [takeSteps_eq, List.foldl_append, List.foldl_cons, List.foldl_nil, step, if_neg h,
    List.reverse_cons, List.getLast?_concat]

/-- **A path that ends in a name** has it also when it is resolved. -/
theorem name_resolve (hnames : p.names ≠ []) (hname : p.name ≠ "..") :
    (resolve here p).name = p.name := by
  obtain ⟨front, n, hp⟩ : ∃ front n, p.names = front ++ [n] :=
    ⟨_, _, (List.dropLast_concat_getLast hnames).symm⟩
  have hn : p.name = n := by rw [name, hp, List.getLast?_concat, Option.getD_some]
  obtain ⟨before, hjoin⟩ : ∃ before, (here.join p).names = before ++ [n] := by
    unfold join
    split
    · exact ⟨front, hp⟩
    · exact ⟨here.names ++ front, by rw [hp, List.append_assoc]⟩
  rw [hn] at hname ⊢
  rw [resolve, hjoin, name, getLast?_takeSteps_concat hname, Option.getD_some]

/-- **A suffix** is left as it is: neither a step back nor the root has one. -/
theorem suffix_resolve (h : p.suffix ≠ "") : (resolve here p).suffix = p.suffix := by
  have hname : p.name ≠ ".." := fun hname => h (by rw [suffix, hname]; decide)
  have hnames : p.names ≠ [] := fun hnil => h (by rw [suffix, name, hnil]; decide)
  rw [suffix, name_resolve hnames hname, suffix]

end Path

end SyntaxForest
