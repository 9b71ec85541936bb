import SyntaxForest.Proofs.Value.WorkList

/-!
# The keys of an indented report

JSON has only texts as keys. A printer that coerces other keys by JSON's own words (`pretty`) and
the report's writer, which displays them, run side by side over one value: they write the same
until the first key that is displayed in other words – a truth value, null, or a double that is no
finite number – and part there for good. So on the values that JSON has, the two texts are the
same if and only if the value has no such key at any depth
(`indentedByWorkList_eq_pretty_iff`).
-/

namespace SyntaxForest.Value

open Number

variable {indent : Int} {level : Nat} {v : Value}

/-! ## The values that JSON has -/

/-- Whether JSON's writers accept a value as a key. -/
def isScalar : Value → Bool
  | .null | .bool _ | .int _ | .real _ | .text _ => true
  | _ => false

/-- **The values that JSON has**: scalars, lists and tuples of such values, and dictionaries with
scalars as keys. -/
inductive IsJson : Value → Prop
  | scalar {v : Value} (h : v.isScalar = true) : IsJson v
  | list {items : List Value} (h : ∀ v ∈ items, IsJson v) : IsJson (.list items)
  | tuple {items : List Value} (h : ∀ v ∈ items, IsJson v) : IsJson (.tuple items)
  | dict {entries : List (Value × Value)} (keys : ∀ e ∈ entries, e.1.isScalar = true)
      (values : ∀ e ∈ entries, IsJson e.2) : IsJson (.dict entries)

mutual

/-- **The keys of a value**, at any depth. -/
def keys : Value → List Value
  | .list items | .tuple items => keysOfItems items
  | .dict entries => keysOfEntries entries
  | _ => []

/-- The keys of several values. -/
def keysOfItems : List Value → List Value
  | [] => []
  | v :: rest => keys v ++ keysOfItems rest

/-- The keys of a dictionary's entries, and those inside their values. -/
def keysOfEntries : List (Value × Value) → List Value
  | [] => []
  | (k, v) :: rest => k :: keys v ++ keysOfEntries rest

end

/-- **Whether a key is displayed in JSON's own words.** -/
def keptAsKey : Value → Bool
  | .text _ | .int _ => true
  | .real x =>
    match x.read with
    | .finite .. => true
    | .nan | .infinite _ => false
  | _ => false

/-! ## A printer with JSON's own keys -/

/-- What is between brackets: each text on its own line, one level deeper. -/
def lines (indent : Int) (level : Nat) (texts : List String) : String :=
  lineBreak indent (level + 1) ++ Text.join ("," ++ lineBreak indent (level + 1)) texts
    ++ lineBreak indent level

mutual

/-- **A value with one item a line, with JSON's own keys**, by recursion. -/
def prettyAt (indent : Int) (level : Nat) : Value → Except JsonFault String
  | .list (v :: rest) =>
    return "[" ++ lines indent level (← prettyItems indent (level + 1) (v :: rest)) ++ "]"
  | .tuple (v :: rest) =>
    return "[" ++ lines indent level (← prettyItems indent (level + 1) (v :: rest)) ++ "]"
  | .dict (e :: rest) =>
    return "\x7b" ++ lines indent level (← prettyEntries indent (level + 1) (e :: rest)) ++ "\x7d"
  | v => leafText v

/-- The texts of items. -/
def prettyItems (indent : Int) (level : Nat) : List Value → Except JsonFault (List String)
  | [] => .ok []
  | v :: rest => return (← prettyAt indent level v) :: (← prettyItems indent level rest)

/-- The texts of entries, each with its key. -/
def prettyEntries (indent : Int) (level : Nat) :
    List (Value × Value) → Except JsonFault (List String)
  | [] => .ok []
  | (k, v) :: rest =>
    return ((← compactKey k) ++ ": " ++ (← prettyAt indent level v))
      :: (← prettyEntries indent level rest)

end

/-- **A value as an indented report, with JSON's own keys.** -/
def pretty (v : Value) (indent : Int) : Except JsonFault String := prettyAt indent 0 v

/-! ## Two texts that part -/

/-- **Two texts part**: they have a beginning in common, and then different characters. -/
def Parts (a b : String) : Prop :=
  ∃ front : List Char, ∃ c d : Char, ∃ s t : List Char,
    c ≠ d ∧ a.toList = front ++ c :: s ∧ b.toList = front ++ d :: t

namespace Parts

variable {a b : String}

theorem ne (h : Parts a b) : a ≠ b := by
  obtain ⟨front, c, d, s, t, hne, ha, hb⟩ := h
  rintro rfl
  exact hne (List.cons.inj (List.append_cancel_left (ha.symm.trans hb))).1

/-- What comes behind does not bring them together. -/
theorem append (h : Parts a b) (x y : String) : Parts (a ++ x) (b ++ y) := by
  obtain ⟨front, c, d, s, t, hne, ha, hb⟩ := h
  refine ⟨front, c, d, s ++ x.toList, t ++ y.toList, hne, ?_, ?_⟩
  · rw [String.toList_append, ha, List.append_assoc, List.cons_append]
  · rw [String.toList_append, hb, List.append_assoc, List.cons_append]

theorem behind (h : Parts a b) (x : String) : Parts (x ++ a) (x ++ b) := by
  obtain ⟨front, c, d, s, t, hne, ha, hb⟩ := h
  refine ⟨x.toList ++ front, c, d, s, t, hne, ?_, ?_⟩
  · rw [String.toList_append, ha, List.append_assoc]
  · rw [String.toList_append, hb, List.append_assoc]

end Parts

/-- **Two texts that are the same if `P`**, and part otherwise. -/
def SameIff (P : Prop) (a b : String) : Prop := (P ∧ a = b) ∨ (¬P ∧ Parts a b)

namespace SameIff

variable {P Q : Prop} {a b c d : String}

theorem refl (a : String) : SameIff True a a := .inl ⟨trivial, rfl⟩

theorem congr (hPQ : P ↔ Q) (h : SameIff P a b) : SameIff Q a b := propext hPQ ▸ h

theorem eq_iff (h : SameIff P a b) : a = b ↔ P := by
  rcases h with ⟨hP, hab⟩ | ⟨hP, hparts⟩
  · exact iff_of_true hab hP
  · exact iff_of_false hparts.ne hP

/-- **Texts one after another** are the same if each is. The first that is not decides. -/
theorem append (hab : SameIff P a b) (hcd : SameIff Q c d) :
    SameIff (P ∧ Q) (a ++ c) (b ++ d) := by
  rcases hab with ⟨hP, rfl⟩ | ⟨hP, hparts⟩
  · rcases hcd with ⟨hQ, rfl⟩ | ⟨hQ, hparts⟩
    · exact .inl ⟨⟨hP, hQ⟩, rfl⟩
    · exact .inr ⟨fun h => hQ h.2, hparts.behind a⟩
  · exact .inr ⟨fun h => hP h.1, hparts.append c d⟩

theorem behind (h : SameIff P a b) (x : String) : SameIff P (x ++ a) (x ++ b) :=
  ((refl x).append h).congr (iff_of_eq (true_and P))

theorem before (h : SameIff P a b) (x : String) : SameIff P (a ++ x) (b ++ x) :=
  (h.append (refl x)).congr (iff_of_eq (and_true P))

end SameIff

/-! ## Keys -/

/-- **How a double is displayed** differs from how JSON writes it only in the words for what is no
finite number. -/
theorem real_sameIff (x : Binary64) : SameIff ((real x).keptAsKey = true)
    (jsonText (FloatLayout.shown.text x)) (jsonText (FloatLayout.json.text x)) := by
  rw [keptAsKey, FloatLayout.text, FloatLayout.text]
  cases x.read with
  | finite negative mantissa exponent => exact .inl ⟨rfl, rfl⟩
  | nan => exact .inr ⟨Bool.false_ne_true, ['"'], 'n', 'N', _, _, by decide, rfl, rfl⟩
  | infinite negative =>
    refine .inr ⟨Bool.false_ne_true, ?_⟩
    cases negative
    · exact ⟨['"'], 'i', 'I', _, _, by decide, rfl, rfl⟩
    · exact ⟨['"', '-'], 'i', 'I', _, _, by decide, rfl, rfl⟩

/-- **A key is written alike** if and only if it is displayed in JSON's own words. -/
theorem compactKey_sameIff {k : Value} (h : k.isScalar = true) : ∃ b, compactKey k = .ok b
    ∧ SameIff (k.keptAsKey = true) (jsonText k.display) b := by
  cases k with
  | text s => exact ⟨_, rfl, .inl ⟨rfl, rfl⟩⟩
  | int i => exact ⟨_, rfl, .inl ⟨rfl, rfl⟩⟩
  | real x => exact ⟨_, rfl, real_sameIff x⟩
  | null => exact ⟨_, rfl, .inr ⟨Bool.false_ne_true, ['"'], 'N', 'n', _, _, by decide, rfl, rfl⟩⟩
  | bool b =>
    refine ⟨_, rfl, .inr ⟨Bool.false_ne_true, ?_⟩⟩
    cases b
    · exact ⟨['"'], 'F', 'f', _, _, by decide, rfl, rfl⟩
    · exact ⟨['"'], 'T', 't', _, _, by decide, rfl, rfl⟩
  | _ => exact absurd h Bool.false_ne_true

/-! ## The two printers side by side -/

theorem prettyItems_eq_mapM (items : List Value) :
    prettyItems indent level items = items.mapM (prettyAt indent level) := by
  induction items with
  | nil => rfl
  | cons v rest ih =>
    rw [prettyItems, ih, List.mapM_cons]

/-- The text of one entry, with its key. -/
def prettyEntry (indent : Int) (level : Nat) (e : Value × Value) : Except JsonFault String :=
  return (← compactKey e.1) ++ ": " ++ (← prettyAt indent level e.2)

theorem prettyEntries_eq_mapM (entries : List (Value × Value)) :
    prettyEntries indent level entries = entries.mapM (prettyEntry indent level) := by
  induction entries with
  | nil => rfl
  | cons e rest ih =>
    obtain ⟨k, v⟩ := e
    rw [prettyEntries, ih, List.mapM_cons, prettyEntry]
    cases compactKey k with
    | error e => rfl
    | ok s => cases prettyAt indent level v <;> rfl

/-- **The printers succeed on entries**, and write the same on those that are kept. -/
theorem entryPieces_sameIff {α : Type} (entry : α → String × Value)
    (text : α → Except JsonFault String) (kept : α → Prop) (first : α) (rest : List α)
    (h : ∀ e ∈ first :: rest, ∃ a b, indentedAt indent (level + 1) (entry e).2 = .ok a
      ∧ text e = .ok b ∧ SameIff (kept e) ((entry e).1 ++ a) b) (comma : String) :
    ∃ a b bs, rendered indent (entryPieces indent level comma ((first :: rest).map entry)) = .ok a
      ∧ (first :: rest).mapM text = .ok (b :: bs)
      ∧ SameIff (∀ e ∈ first :: rest, kept e) a (comma ++ (lineBreak indent (level + 1)
        ++ Text.join ("," ++ lineBreak indent (level + 1)) (b :: bs))) := by
  induction rest generalizing first comma with
  | nil =>
    obtain ⟨a, b, hown, htext, hsame⟩ := h first List.mem_cons_self
    refine ⟨comma ++ lineBreak indent (level + 1) ++ (entry first).1 ++ a, b, [], ?_, ?_, ?_⟩
    · rw [List.map_cons, List.map_nil, entryPieces, entryPieces, rendered, rendered, rendered,
        followedBy_empty, hown, ok_followedBy_ok]
    · rw [List.mapM_cons, htext, List.mapM_nil]
      rfl
    · rw [Text.join, String.append_assoc, String.append_assoc]
      exact ((hsame.behind _).behind _).congr List.forall_mem_singleton.symm
  | cons next rest ih =>
    obtain ⟨a, b, hown, htext, hsame⟩ := h first List.mem_cons_self
    obtain ⟨as, b', bs, hrest, htexts, hsames⟩ :=
      ih next (fun e he => h e (List.mem_cons_of_mem _ he)) ","
    refine ⟨comma ++ lineBreak indent (level + 1) ++ (entry first).1 ++ (a ++ as), b, b' :: bs,
      ?_, ?_, ?_⟩
    · rw [List.map_cons, entryPieces, rendered, rendered, hrest, hown, ok_followedBy_ok,
        ok_followedBy_ok]
    · rw [List.mapM_cons, htext, htexts]
      rfl
    · have hjoined := (hsame.append hsames).behind (comma ++ lineBreak indent (level + 1))
      rw [← List.forall_mem_cons] at hjoined
      simpa only [Text.join, String.append_assoc] using hjoined

/-- **Both printers succeed** on a value, with the same text if and only if every key is kept. -/
def Alike (indent : Int) (v : Value) : Prop :=
  ∀ level, ∃ a b, indentedAt indent level v = .ok a ∧ prettyAt indent level v = .ok b
    ∧ SameIff (∀ k ∈ v.keys, k.keptAsKey = true) a b

theorem prettyAt_leaf (h : v.container? = none) : prettyAt indent level v = leafText v := by
  unfold container? at h
  split at h
  · exact absurd h (Option.some_ne_none _)
  · exact absurd h (Option.some_ne_none _)
  · exact absurd h (Option.some_ne_none _)
  · next hlist htuple hdict =>
    rw [prettyAt]
    · exact hlist
    · exact htuple
    · exact hdict

/-- Scalars and empty containers are written alike. -/
theorem alike_of_leaf {a : String} (h : v.container? = none) (htext : leafText v = .ok a)
    (hkeys : v.keys = []) : Alike indent v := fun level =>
  ⟨a, a, (indentedAt_leaf h).trans htext, (prettyAt_leaf h).trans htext,
    (SameIff.refl a).congr (by rw [hkeys]; exact iff_of_true trivial (List.forall_mem_nil _))⟩

/-- **A container is written alike** if its entries are. -/
theorem alike_of_entries {α : Type} {entry : α → String × Value} {kept : α → Prop} {first : α}
    {rest : List α} {opening closing : String} (text : Nat → α → Except JsonFault String)
    (hc : v.container? = some ⟨opening, (first :: rest).map entry, closing⟩)
    (hpretty : ∀ level, prettyAt indent level v = (do
      return opening ++ lines indent level (← (first :: rest).mapM (text (level + 1))) ++ closing))
    (hkeys : (∀ e ∈ first :: rest, kept e) ↔ ∀ k ∈ v.keys, k.keptAsKey = true)
    (h : ∀ level, ∀ e ∈ first :: rest, ∃ a b, indentedAt indent level (entry e).2 = .ok a
      ∧ text level e = .ok b ∧ SameIff (kept e) ((entry e).1 ++ a) b) : Alike indent v := by
  intro level
  obtain ⟨a, b, bs, hown, htexts, hsame⟩ :=
    entryPieces_sameIff entry (text (level + 1)) kept first rest (h (level + 1)) ""
  refine ⟨opening ++ (a ++ (lineBreak indent level ++ closing)),
    opening ++ lines indent level (b :: bs) ++ closing, ?_, ?_, ?_⟩
  · have hinner : rendered indent (entryPieces indent level "" ((first :: rest).map entry))
        = followedBy (.ok "") (.ok a) := hown.trans (empty_followedBy _).symm
    rw [indentedAt_container hc, rendered_pieces hinner]
    rfl
  · rw [hpretty, htexts]
    rfl
  · have hline := ((hsame.before (lineBreak indent level ++ closing)).behind opening).congr hkeys
    simpa only [lines, String.append_assoc, String.empty_append] using hline

theorem forall_keysOfItems {P : Value → Prop} {items : List Value} :
    (∀ k ∈ keysOfItems items, P k) ↔ ∀ v ∈ items, ∀ k ∈ v.keys, P k := by
  induction items with
  | nil => exact iff_of_true (List.forall_mem_nil P) (List.forall_mem_nil _)
  | cons v rest ih => rw [keysOfItems, List.forall_mem_append, List.forall_mem_cons, ih]

theorem forall_keysOfEntries {P : Value → Prop} {entries : List (Value × Value)} :
    (∀ k ∈ keysOfEntries entries, P k) ↔ ∀ e ∈ entries, P e.1 ∧ ∀ k ∈ e.2.keys, P k := by
  induction entries with
  | nil => exact iff_of_true (List.forall_mem_nil P) (List.forall_mem_nil _)
  | cons e rest ih =>
    rw [keysOfEntries, List.cons_append, List.forall_mem_cons, List.forall_mem_append, ih,
      List.forall_mem_cons, and_assoc]

theorem alike_ofItems {first : Value} {rest : List Value}
    (hc : v.container? = some (.ofItems (first :: rest)))
    (hpretty : ∀ level, prettyAt indent level v = (do
      return "[" ++ lines indent level (← prettyItems indent (level + 1) (first :: rest)) ++ "]"))
    (hkeys : v.keys = keysOfItems (first :: rest)) (h : ∀ v ∈ first :: rest, Alike indent v) :
    Alike indent v := by
  refine alike_of_entries (prettyAt indent) hc (fun level => by rw [hpretty, prettyItems_eq_mapM])
    (by rw [hkeys, forall_keysOfItems]) (fun level v hv => ?_)
  obtain ⟨a, b, hown, htext, hsame⟩ := h v hv level
  exact ⟨a, b, hown, htext, by rwa [String.empty_append]⟩

/-- **Every value that JSON has is printed by both**, with the same text if and only if its keys
are kept. -/
theorem IsJson.alike (hv : v.IsJson) : Alike indent v := by
  induction hv with
  | @scalar v h =>
    cases v with
    | null => exact alike_of_leaf rfl rfl rfl
    | bool b => exact alike_of_leaf rfl rfl rfl
    | int i => exact alike_of_leaf rfl rfl rfl
    | real x => exact alike_of_leaf rfl rfl rfl
    | text s => exact alike_of_leaf rfl rfl rfl
    | _ => exact absurd h Bool.false_ne_true
  | @list items h ih =>
    cases items with
    | nil => exact alike_of_leaf rfl rfl rfl
    | cons first rest => exact alike_ofItems rfl (fun level => rfl) rfl ih
  | @tuple items h ih =>
    cases items with
    | nil => exact alike_of_leaf rfl rfl rfl
    | cons first rest => exact alike_ofItems rfl (fun level => rfl) rfl ih
  | @dict entries hkeys h ih =>
    cases entries with
    | nil => exact alike_of_leaf rfl rfl rfl
    | cons first rest =>
      refine alike_of_entries (prettyEntry indent) rfl
        (fun level => by rw [← prettyEntries_eq_mapM]; rfl) forall_keysOfEntries.symm
        (fun level e he => ?_)
      obtain ⟨key, hkey, hsamekey⟩ := compactKey_sameIff (hkeys e he)
      obtain ⟨a, b, hown, htext, hsame⟩ := ih e he level
      refine ⟨a, key ++ ": " ++ b, hown, by rw [prettyEntry, hkey, htext]; rfl, ?_⟩
      exact (hsamekey.before ": ").append hsame

/-- **The work list against JSON's own keys.** On every value that JSON has, at any depth and with
any indent, both printers come to a text. The texts are the same if and only if every key, at any
depth, is a text, an integer or a finite number. -/
theorem indentedByWorkList_eq_pretty_iff (hv : v.IsJson) (indent : Int) :
    ∃ text own, v.indentedByWorkList indent = .ok text ∧ v.indented indent = .ok text
      ∧ v.pretty indent = .ok own
      ∧ (text = own ↔ ∀ k ∈ v.keys, k.keptAsKey = true) := by
  have halike : Alike indent v := hv.alike
  obtain ⟨text, own, htext, hown, hsame⟩ := halike 0
  exact ⟨text, own, (indentedByWorkList_eq v indent).trans htext, htext, hown, hsame.eq_iff⟩

/-- A list in a dictionary with a number as a key: both printers write the same. -/
theorem indentedByWorkList_eq_pretty_number :
    ∃ s, (dict [(int 1, list [null, text "a"])]).indentedByWorkList 2 = .ok s
      ∧ (dict [(int 1, list [null, text "a"])]).pretty 2 = .ok s := by
  have hlist : (list [null, text "a"]).IsJson := .list (List.forall_mem_cons.mpr
    ⟨.scalar rfl, List.forall_mem_singleton.mpr (.scalar rfl)⟩)
  have hdict : (dict [(int 1, list [null, text "a"])]).IsJson := .dict
    (List.forall_mem_singleton.mpr rfl) (List.forall_mem_singleton.mpr hlist)
  obtain ⟨s, own, hs, -, hown, hiff⟩ := indentedByWorkList_eq_pretty_iff hdict 2
  have hsame : s = own := hiff.mpr (List.forall_mem_singleton.mpr rfl)
  exact ⟨s, hs, hsame ▸ hown⟩

/-- **A truth value as a key** is displayed, and JSON's own word for it is another. -/
theorem indentedByWorkList_ne_pretty :
    (dict [(bool true, int 1)]).IsJson
      ∧ (dict [(bool true, int 1)]).indentedByWorkList 2
        = .ok "\x7b\n  \"True\": 1\n\x7d"
      ∧ (dict [(bool true, int 1)]).pretty 2 = .ok "\x7b\n  \"true\": 1\n\x7d" := by
  refine ⟨.dict (List.forall_mem_singleton.mpr rfl) (List.forall_mem_singleton.mpr (.scalar rfl)),
    ?_, ?_⟩
  · exact indentedByWorkList_eq _ _
  · rfl

end SyntaxForest.Value
