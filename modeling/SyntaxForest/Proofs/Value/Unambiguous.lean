import Mathlib
import SyntaxForest.Proofs.Tree.RoundTrip
import SyntaxForest.Proofs.Value.Escapes
import SyntaxForest.Proofs.Value.Keys

/-!
# The indented report determines the tree

The values that trees are written as have their kind in the first character of their text, and a
text that is written of one can be continued in one way only: if two such values are written, each
with something behind it, and the whole is the same, then the values are the same and what is
behind them is the same (`IsPlain.determined`). A text ends at its quote, a list at its bracket;
an integer has no end of its own, and what is behind it must not go on with a digit, as no
separator does. Nothing is asked of the texts inside, which may look like JSON themselves.

So trees with one report are one tree (`Tree.indentedByWorkList_inj`). Doubles as properties are
left out: there is more than one nan, and they are written alike.
-/

namespace SyntaxForest

namespace Value

variable {indent : Int} {level : Nat} {v w : Value} {a b : String} {r s : List Char}

/-- **The values that trees are written as**: texts, integers, truth values, lists, and
dictionaries with texts as keys. -/
inductive IsPlain : Value → Prop
  | text (s : String) : IsPlain (.text s)
  | int (i : Int) : IsPlain (.int i)
  | bool (b : Bool) : IsPlain (.bool b)
  | list (items : List Value) (h : ∀ v ∈ items, IsPlain v) : IsPlain (.list items)
  | record (fields : List (String × Value)) (h : ∀ f ∈ fields, IsPlain f.2) :
    IsPlain (.record fields)

theorem IsPlain.isJson (h : v.IsPlain) : v.IsJson := by
  induction h with
  | text s => exact .scalar rfl
  | int i => exact .scalar rfl
  | bool b => exact .scalar rfl
  | list items _ ih => exact .list ih
  | record fields _ ih =>
    exact .dict (List.forall_mem_map.mpr fun _ _ => rfl) (List.forall_mem_map.mpr ih)

/-! ## Numerals -/

/-- The characters that integers are written with. -/
def isNumeral (c : Char) : Bool := c.isDigit || c == '-'

/-- No numeral goes on here. -/
def Stops (r : List Char) : Prop := ∀ c ∈ r.head?, isNumeral c = false

theorem stops_nil : Stops [] := fun _ h => absurd h (Option.not_mem_none _)

theorem stops_cons {c : Char} (h : isNumeral c = false) (r : List Char) : Stops (c :: r) := by
  intro d hd
  rwa [← Option.some.inj hd]

theorem isNumeral_of_mem_repr {n : Nat} {c : Char} (h : c ∈ n.repr.toList) :
    isNumeral c = true := by
  rw [Nat.repr_eq_ofList_toDigits, String.toList_ofList] at h
  rw [isNumeral, Nat.isDigit_of_mem_toDigits (by decide) (by decide) h, Bool.true_or]

theorem toList_negSucc (n : Nat) :
    (toString (Int.negSucc n)).toList = '-' :: (n + 1).repr.toList :=
  String.toList_append (s := "-")

/-- An integer is written with numerals only. -/
theorem isNumeral_of_mem_toString {i : Int} {c : Char} (h : c ∈ (toString i).toList) :
    isNumeral c = true := by
  cases i with
  | ofNat n => exact isNumeral_of_mem_repr h
  | negSucc n =>
    rw [toList_negSucc] at h
    rcases List.mem_cons.mp h with rfl | h
    · rfl
    · exact isNumeral_of_mem_repr h

theorem toString_toList_ne_nil (i : Int) : (toString i).toList ≠ [] := by
  cases i with
  | ofNat n =>
    refine (congrArg String.toList Nat.repr_eq_ofList_toDigits).trans_ne ?_
    rw [String.toList_ofList]
    exact Nat.toDigits_ne_nil
  | negSucc n =>
    rw [toList_negSucc]
    exact List.cons_ne_nil _ _

/-- Where numerals stop, the text before them is the longest run of numerals. -/
theorem takeWhile_append_of_stops {cs : List Char} (h : ∀ c ∈ cs, isNumeral c = true)
    (hr : Stops r) : (cs ++ r).takeWhile isNumeral = cs := by
  rw [List.takeWhile_append_of_pos h]
  cases r with
  | nil => exact List.append_nil cs
  | cons c rest =>
    rw [List.takeWhile_cons_of_neg (by rw [hr c rfl]; exact Bool.false_ne_true), List.append_nil]

/-- **An integer is determined** by its text, where the text stops. -/
theorem toString_append_inj {i j : Int} (hr : Stops r) (hs : Stops s)
    (h : (toString i).toList ++ r = (toString j).toList ++ s) : i = j ∧ r = s := by
  have hnumerals := congrArg (List.takeWhile isNumeral) h
  rw [takeWhile_append_of_stops (fun _ => isNumeral_of_mem_toString) hr,
    takeWhile_append_of_stops (fun _ => isNumeral_of_mem_toString) hs] at hnumerals
  rw [hnumerals] at h
  exact ⟨Int.repr_inj.mp (String.toList_inj.mp hnumerals), List.append_cancel_left h⟩

/-! ## Containers -/

/-- **What is written of a container**: its entries between its brackets. -/
theorem indentedAt_container_ok {opening closing : String} {entries : List (String × Value)}
    (hc : v.container? = some ⟨opening, entries, closing⟩)
    (h : indentedAt indent level v = .ok a) :
    ∃ inner, rendered indent (entryPieces indent level "" entries) = .ok inner
      ∧ a.toList = opening.toList
        ++ (inner.toList ++ ((lineBreak indent level).toList ++ closing.toList)) := by
  rw [indentedAt_container hc, Container.pieces, rendered_append] at h
  obtain ⟨front, back, hfront, hback, rfl⟩ := followedBy_eq_ok h
  obtain ⟨inner, last, hinner, hlast, rfl⟩ := followedBy_eq_ok hback
  cases hfront
  cases hlast
  refine ⟨inner, hinner, ?_⟩
  rw [String.append_empty, String.toList_append, String.toList_append, String.toList_append]

/-- **What a container holds**, between which brackets. An empty one has the closing bracket right
behind the opening one. -/
def Holds (v : Value) (opening : String) (entries : List (String × Value)) (closing : String) :
    Prop :=
  match entries with
  | [] => ∀ indent level, indentedAt indent level v = .ok (opening ++ closing)
  | e :: rest => v.container? = some ⟨opening, e :: rest, closing⟩

theorem holds_list (items : List Value) :
    (list items).Holds "[" (items.map fun v => ("", v)) "]" := by
  cases items with
  | nil => exact fun _ _ => rfl
  | cons first rest => rfl

theorem holds_record (fields : List (String × Value)) :
    (record fields).Holds "\x7b" (fields.map fun f => (jsonText f.1 ++ ": ", f.2)) "\x7d" := by
  cases fields with
  | nil => exact fun _ _ => rfl
  | cons first rest =>
    rw [record, List.map_cons, List.map_cons, Holds, container?, Container.ofFields, List.map_cons,
      List.map_map]
    rfl

/-- What is written of a container begins with its opening bracket. -/
theorem Holds.opening {opening closing : String} {entries : List (String × Value)}
    (hv : v.Holds opening entries closing) (ha : indentedAt indent level v = .ok a) :
    ∃ cs, a.toList = opening.toList ++ cs := by
  cases entries with
  | nil =>
    cases (hv indent level).symm.trans ha
    exact ⟨_, String.toList_append⟩
  | cons e rest =>
    obtain ⟨inner, -, ha⟩ := indentedAt_container_ok hv ha
    exact ⟨_, ha⟩

/-! ## Kinds -/

/-- The kind of value that a character begins. -/
def kindOf (c : Char) : String :=
  if c = '"' then "str"
  else if c = '[' then "list"
  else if c = '\x7b' then "dict"
  else if isNumeral c then "int"
  else "bool"

theorem kindOf_of_isNumeral {c : Char} (h : isNumeral c = true) : kindOf c = "int" := by
  have hne : ∀ d, isNumeral d = false → c ≠ d := by
    rintro d hd rfl
    exact Bool.false_ne_true (hd.symm.trans h)
  rw [kindOf, if_neg (hne _ (by decide)), if_neg (hne _ (by decide)), if_neg (hne _ (by decide)),
    if_pos h]

/-- **The kind of a value** shows in the first character of its text. -/
theorem IsPlain.kindOf_head (hv : v.IsPlain) (h : indentedAt indent level v = .ok a) :
    a.toList.head?.map kindOf = some v.kindName := by
  cases hv with
  | text s =>
    cases h
    rw [toList_jsonText]
    rfl
  | int i =>
    cases h
    cases hcs : (toString i).toList with
    | nil => exact absurd hcs (toString_toList_ne_nil i)
    | cons c cs =>
      have hc : c ∈ (toString i).toList := hcs ▸ List.mem_cons_self
      exact congrArg some (kindOf_of_isNumeral (isNumeral_of_mem_toString hc))
  | bool b =>
    cases h
    cases b <;> rfl
  | list items _ =>
    obtain ⟨cs, ha⟩ := (holds_list items).opening h
    rw [ha]
    rfl
  | record fields _ =>
    obtain ⟨cs, ha⟩ := (holds_record fields).opening h
    rw [ha]
    rfl

theorem head?_append_of_some {x : String} {kind : String}
    (h : x.toList.head?.map kindOf = some kind) (cs : List Char) :
    (x.toList ++ cs).head?.map kindOf = some kind := by
  cases hlist : x.toList with
  | nil =>
    rw [hlist] at h
    exact absurd h.symm (Option.some_ne_none _)
  | cons c rest =>
    rw [hlist] at h
    exact h

/-- **Two texts that begin the same** are of values of one kind. -/
theorem IsPlain.kindName_eq (hv : v.IsPlain) (hw : w.IsPlain)
    (ha : indentedAt indent level v = .ok a) (hb : indentedAt indent level w = .ok b)
    (h : a.toList ++ r = b.toList ++ s) : v.kindName = w.kindName := by
  have hv' := head?_append_of_some (hv.kindOf_head ha) r
  have hw' := head?_append_of_some (hw.kindOf_head hb) s
  rw [h] at hv'
  exact Option.some.inj (hv'.symm.trans hw')

/-! ## Entries -/

/-- **A value is determined** by its text, among the plain values on one level: if the text goes
on in some way, in which no numeral goes on, then it is the text of no other value, and it goes on
in no other way. -/
def Determined (indent : Int) (v : Value) : Prop :=
  ∀ {level : Nat} {w : Value} {a b : String} {r s : List Char}, w.IsPlain →
    indentedAt indent level v = .ok a → indentedAt indent level w = .ok b → Stops r → Stops s →
    a.toList ++ r = b.toList ++ s → v = w ∧ r = s

/-- What is in front of a value is determined. -/
def LeadsApart (lead lead' : String) : Prop :=
  ∀ {r s : List Char}, lead.toList ++ r = lead'.toList ++ s → lead = lead' ∧ r = s

theorem rendered_entry_ok {comma : String} {e : String × Value} {rest : List (String × Value)}
    (h : rendered indent (entryPieces indent level comma (e :: rest)) = .ok a) :
    ∃ x y, indentedAt indent (level + 1) e.2 = .ok x
      ∧ rendered indent (entryPieces indent level "," rest) = .ok y
      ∧ a.toList = comma.toList ++ ((lineBreak indent (level + 1)).toList
        ++ (e.1.toList ++ (x.toList ++ y.toList))) := by
  rw [entryPieces, rendered, rendered] at h
  obtain ⟨front, back, hfront, hback, rfl⟩ := followedBy_eq_ok h
  obtain ⟨x, y, hx, hy, rfl⟩ := followedBy_eq_ok hback
  cases hfront
  refine ⟨x, y, hx, hy, ?_⟩
  simp only [String.toList_append, List.append_assoc]

/-- Behind an entry no numeral goes on: a comma follows, or a line break. -/
theorem stops_rest {rest : List (String × Value)}
    (h : rendered indent (entryPieces indent level "," rest) = .ok a) (r : List Char) :
    Stops (a.toList ++ '\n' :: r) := by
  cases rest with
  | nil =>
    cases h
    exact stops_cons rfl r
  | cons e rest =>
    obtain ⟨x, y, -, -, ha⟩ := rendered_entry_ok h
    rw [ha]
    exact stops_cons rfl _

/-- **One entry** is determined, and what follows it. -/
theorem entry_append_inj {comma : String} {e f : String × Value} {es fs : List (String × Value)}
    (hleads : LeadsApart e.1 f.1) (he : Determined indent e.2) (hf : f.2.IsPlain)
    (ha : rendered indent (entryPieces indent level comma (e :: es)) = .ok a)
    (hb : rendered indent (entryPieces indent level comma (f :: fs)) = .ok b)
    (h : a.toList ++ '\n' :: r = b.toList ++ '\n' :: s) :
    e = f ∧ ∃ x y, rendered indent (entryPieces indent level "," es) = .ok x
      ∧ rendered indent (entryPieces indent level "," fs) = .ok y
      ∧ x.toList ++ '\n' :: r = y.toList ++ '\n' :: s := by
  obtain ⟨ve, x, hve, hx, ha⟩ := rendered_entry_ok ha
  obtain ⟨vf, y, hvf, hy, hb⟩ := rendered_entry_ok hb
  rw [ha, hb] at h
  simp only [List.append_assoc] at h
  obtain ⟨hlead, hrest⟩ := hleads (List.append_cancel_left (List.append_cancel_left h))
  obtain ⟨hvalue, hrest⟩ := he hf hve hvf (stops_rest hx r) (stops_rest hy s) hrest
  exact ⟨Prod.ext hlead hvalue, x, y, hx, hy, hrest⟩

/-- **The later entries** are determined, up to the line break behind them. -/
theorem entries_append_inj {es fs : List (String × Value)}
    (hleads : ∀ e ∈ es, ∀ f ∈ fs, LeadsApart e.1 f.1) (hes : ∀ e ∈ es, Determined indent e.2)
    (hfs : ∀ f ∈ fs, f.2.IsPlain)
    (ha : rendered indent (entryPieces indent level "," es) = .ok a)
    (hb : rendered indent (entryPieces indent level "," fs) = .ok b)
    (h : a.toList ++ '\n' :: r = b.toList ++ '\n' :: s) : es = fs ∧ r = s := by
  induction es generalizing fs a b with
  | nil =>
    cases ha
    cases fs with
    | nil =>
      cases hb
      exact ⟨rfl, (List.cons.inj h).2⟩
    | cons f fs =>
      obtain ⟨x, y, -, -, hb⟩ := rendered_entry_ok hb
      rw [hb] at h
      exact absurd (List.cons.inj h).1 (by decide)
  | cons e es ih =>
    cases fs with
    | nil =>
      cases hb
      obtain ⟨x, y, -, -, ha⟩ := rendered_entry_ok ha
      rw [ha] at h
      exact absurd (List.cons.inj h).1 (by decide)
    | cons f fs =>
      obtain ⟨he, hes'⟩ := List.forall_mem_cons.mp hes
      obtain ⟨hf, hfs'⟩ := List.forall_mem_cons.mp hfs
      obtain ⟨hlead, hleads'⟩ := List.forall_mem_cons.mp hleads
      obtain ⟨rfl, x, y, hx, hy, hrest⟩ :=
        entry_append_inj (hlead f List.mem_cons_self) he hf ha hb h
      obtain ⟨rfl, hr⟩ := ih (fun e' he' => (List.forall_mem_cons.mp (hleads' e' he')).2) hes' hfs'
        hx hy hrest
      exact ⟨rfl, hr⟩

theorem toList_lineBreak (indent : Int) (level : Nat) : (lineBreak indent level).toList
    = '\n' :: List.replicate (indent.toNat * level) ' ' := by
  rw [lineBreak, String.toList_append]
  exact congrArg ('\n' :: ·) String.toList_ofList

section Containers

variable {opening closing : String} {e f : String × Value} {es fs : List (String × Value)}

/-- Behind the bracket that opens a container with entries the line ends. -/
theorem Holds.line (hv : v.Holds opening (e :: es) closing)
    (ha : indentedAt indent level v = .ok a) :
    ∃ cs, a.toList = opening.toList ++ '\n' :: cs := by
  obtain ⟨inner, hinner, ha⟩ := indentedAt_container_ok hv ha
  obtain ⟨x, y, -, -, hinner⟩ := rendered_entry_ok hinner
  rw [ha, hinner, toList_lineBreak]
  exact ⟨_, rfl⟩

/-- **A container is determined** by what it holds, if its entries are. -/
theorem Holds.append_inj (hv : v.Holds opening es closing) (hw : w.Holds opening fs closing)
    (hclosing : ∀ cs ds : List Char, closing.toList ++ cs ≠ '\n' :: ds)
    (hleads : ∀ e ∈ es, ∀ f ∈ fs, LeadsApart e.1 f.1) (hes : ∀ e ∈ es, Determined indent e.2)
    (hfs : ∀ f ∈ fs, f.2.IsPlain) (ha : indentedAt indent level v = .ok a)
    (hb : indentedAt indent level w = .ok b) (h : a.toList ++ r = b.toList ++ s) :
    es = fs ∧ r = s := by
  cases es with
  | nil =>
    cases (hv indent level).symm.trans ha
    rw [String.toList_append, List.append_assoc] at h
    cases fs with
    | nil =>
      cases (hw indent level).symm.trans hb
      rw [String.toList_append, List.append_assoc] at h
      exact ⟨rfl, List.append_cancel_left (List.append_cancel_left h)⟩
    | cons f fs =>
      obtain ⟨cs, hb⟩ := hw.line hb
      rw [hb, List.append_assoc] at h
      exact absurd (List.append_cancel_left h) (hclosing _ _)
  | cons e es =>
    cases fs with
    | nil =>
      cases (hw indent level).symm.trans hb
      obtain ⟨cs, ha⟩ := hv.line ha
      rw [ha, String.toList_append, List.append_assoc, List.append_assoc] at h
      exact absurd (List.append_cancel_left h).symm (hclosing _ _)
    | cons f fs =>
      obtain ⟨x, hx, ha⟩ := indentedAt_container_ok hv ha
      obtain ⟨y, hy, hb⟩ := indentedAt_container_ok hw hb
      rw [ha, hb, toList_lineBreak] at h
      simp only [List.append_assoc, List.cons_append] at h
      obtain ⟨he, hes'⟩ := List.forall_mem_cons.mp hes
      obtain ⟨hf, hfs'⟩ := List.forall_mem_cons.mp hfs
      obtain ⟨hlead, hleads'⟩ := List.forall_mem_cons.mp hleads
      obtain ⟨rfl, x', y', hx', hy', hrest⟩ := entry_append_inj (hlead f List.mem_cons_self) he hf
        hx hy (List.append_cancel_left h)
      obtain ⟨rfl, hr⟩ := entries_append_inj
        (fun e' he' => (List.forall_mem_cons.mp (hleads' e' he')).2) hes' hfs' hx' hy' hrest
      exact ⟨rfl, List.append_cancel_left (List.append_cancel_left hr)⟩

end Containers

/-! ## Values -/

/-- A key and the colon behind it determine the key. -/
theorem leadsApart_key (k k' : String) : LeadsApart (jsonText k ++ ": ") (jsonText k' ++ ": ") := by
  intro r s h
  rw [String.toList_append, String.toList_append, List.append_assoc, List.append_assoc] at h
  obtain ⟨rfl, hr⟩ := jsonText_append_inj h
  exact ⟨rfl, List.append_cancel_left hr⟩

/-- **Lists are determined** if their items are. -/
theorem determined_list {items : List Value} (hitems : ∀ v ∈ items, IsPlain v)
    (h : ∀ v ∈ items, Determined indent v) : Determined indent (list items) := by
  intro level w a b r s hw ha hb _ _ heq
  have hkind := (IsPlain.list items hitems).kindName_eq hw ha hb heq
  cases hw with
  | list others hothers =>
    have hleads : ∀ e ∈ items.map (fun v => ("", v)), ∀ f ∈ others.map (fun v => ("", v)),
        LeadsApart e.1 f.1 := List.forall_mem_map.mpr fun _ _ => List.forall_mem_map.mpr
      fun _ _ _ _ h => ⟨rfl, h⟩
    obtain ⟨hentries, hrest⟩ := (holds_list items).append_inj (holds_list others)
      (fun _ _ h => absurd (List.cons.inj h).1 (by decide)) hleads (List.forall_mem_map.mpr h)
      (List.forall_mem_map.mpr hothers) ha hb heq
    have hsame : items = others :=
      List.map_injective_iff.mpr (fun _ _ h => (Prod.mk.inj h).2) hentries
    exact ⟨congrArg list hsame, hrest⟩
  | _ => exact absurd hkind (ne_of_beq_false rfl)

/-- **Dictionaries with texts as keys are determined** if their values are. -/
theorem determined_record {fields : List (String × Value)} (hfields : ∀ f ∈ fields, f.2.IsPlain)
    (h : ∀ f ∈ fields, Determined indent f.2) : Determined indent (record fields) := by
  intro level w a b r s hw ha hb _ _ heq
  have hkind := (IsPlain.record fields hfields).kindName_eq hw ha hb heq
  cases hw with
  | record others hothers =>
    have hleads : ∀ e ∈ fields.map (fun f => (jsonText f.1 ++ ": ", f.2)),
        ∀ f ∈ others.map (fun f => (jsonText f.1 ++ ": ", f.2)), LeadsApart e.1 f.1 :=
      List.forall_mem_map.mpr fun e _ => List.forall_mem_map.mpr fun f _ => leadsApart_key e.1 f.1
    obtain ⟨hentries, hrest⟩ := (holds_record fields).append_inj (holds_record others)
      (fun _ _ h => absurd (List.cons.inj h).1 (by decide)) hleads (List.forall_mem_map.mpr h)
      (List.forall_mem_map.mpr hothers) ha hb heq
    have hentry : Function.Injective fun f : String × Value => (jsonText f.1 ++ ": ", f.2) := by
      intro e f hef
      obtain ⟨hlead, hvalue⟩ := Prod.mk.inj hef
      have htext := congrArg String.toList ((String.append_left_inj ": ").mp hlead)
      exact Prod.ext (jsonText_append_inj (congrArg (· ++ []) htext)).1 hvalue
    have hsame : fields = others := List.map_injective_iff.mpr hentry hentries
    exact ⟨congrArg record hsame, hrest⟩
  | _ => exact absurd hkind (ne_of_beq_false rfl)

/-- **Plain values are determined** by their text. -/
theorem IsPlain.determined (hv : v.IsPlain) : Determined indent v := by
  induction hv with
  | text t =>
    intro level w a b r s hw ha hb _ _ heq
    have hkind := (IsPlain.text t).kindName_eq hw ha hb heq
    cases hw with
    | text u =>
      cases ha
      cases hb
      obtain ⟨rfl, hrest⟩ := jsonText_append_inj heq
      exact ⟨rfl, hrest⟩
    | _ => exact absurd hkind (ne_of_beq_false rfl)
  | int i =>
    intro level w a b r s hw ha hb hr hs heq
    have hkind := (IsPlain.int i).kindName_eq hw ha hb heq
    cases hw with
    | int j =>
      cases ha
      cases hb
      obtain ⟨rfl, hrest⟩ := toString_append_inj hr hs heq
      exact ⟨rfl, hrest⟩
    | _ => exact absurd hkind (ne_of_beq_false rfl)
  | bool x =>
    intro level w a b r s hw ha hb _ _ heq
    have hkind := (IsPlain.bool x).kindName_eq hw ha hb heq
    cases hw with
    | bool y =>
      cases ha
      cases hb
      cases x <;> cases y
      · exact ⟨rfl, List.append_cancel_left heq⟩
      · exact absurd (List.cons.inj heq).1 (by decide)
      · exact absurd (List.cons.inj heq).1 (by decide)
      · exact ⟨rfl, List.append_cancel_left heq⟩
    | _ => exact absurd hkind (ne_of_beq_false rfl)
  | list items h ih => exact determined_list h ih
  | record fields h ih => exact determined_record h ih

end Value

namespace Tree

/-- No property of the tree is a double. -/
def RealFree (t : Tree) : Prop := ∀ n ∈ t.walk, ∀ p ∈ n.properties, ∀ x, p.2 ≠ .real x

theorem isPlain_properties {props : Properties} (h : ∀ p ∈ props, ∀ x, p.2 ≠ .real x) :
    props.toValue.IsPlain := by
  refine .record _ (List.forall_mem_map.mpr fun p hp => ?_)
  change p.2.toValue.IsPlain
  cases hvalue : p.2 with
  | text s => exact .text s
  | int i => exact .int i
  | bool b => exact .bool b
  | real x => exact absurd hvalue (h p hp x)

/-- **A tree without doubles** is written as a plain value. -/
theorem RealFree.isPlain {t : Tree} (h : t.RealFree) : t.toValue.IsPlain := by
  induction t using Tree.childrenInduction with
  | h t ih =>
    obtain ⟨k, p, c⟩ := t
    obtain ⟨hp, hc⟩ := forall_walk_node.mp h
    rw [toValue]
    refine .record _ (List.forall_mem_cons.mpr ⟨.text k, List.forall_mem_cons.mpr
      ⟨isPlain_properties hp, List.forall_mem_singleton.mpr (.list _ ?_)⟩⟩)
    rw [toValues_eq_map]
    exact List.forall_mem_map.mpr fun t ht => ih t ht (hc t ht)

theorem toValue_inj {a b : Tree} (h : a.toValue = b.toValue) : a = b :=
  Except.ok.inj ((ofValue_toValue a).symm.trans ((congrArg ofValue h).trans (ofValue_toValue b)))

/-- The record and its text as the recursions make them. -/
theorem reportByWorkList_eq (t : Tree) (indent : Int) :
    t.reportByWorkList indent = some (t.toValue.indented indent) := by
  rw [reportByWorkList, toValueByWorkList_eq, Option.map_some, Value.indentedByWorkList_eq]

/-- **The indented report of a tree determines the tree**: the categories, the properties with
their kinds, values and order, and the children in order. Every tree without doubles has a report,
with any indent, and no other such tree has the same one. -/
theorem indentedByWorkList_inj {a b : Tree} (ha : a.RealFree) (hb : b.RealFree) (indent : Int) :
    (∃ text, a.reportByWorkList indent = some (.ok text))
      ∧ (a.reportByWorkList indent = b.reportByWorkList indent → a = b) := by
  have halike : a.toValue.Alike indent := ha.isPlain.isJson.alike
  obtain ⟨text, _, htext, -⟩ := halike 0
  rw [reportByWorkList_eq, reportByWorkList_eq]
  refine ⟨⟨text, congrArg some htext⟩, fun h => toValue_inj ?_⟩
  exact (ha.isPlain.determined hb.isPlain htext ((Option.some.inj h).symm.trans htext)
    Value.stops_nil Value.stops_nil rfl).1

/-- A node with one property. -/
def labelled (value : Scalar) : Tree := .node "Literal" [("value", value)] []

theorem realFree_labelled {value : Scalar} (h : ∀ x, value ≠ .real x) :
    (labelled value).RealFree :=
  forall_walk_node.mpr ⟨List.forall_mem_singleton.mpr h, List.forall_mem_nil _⟩

/-- The integer one and the text of it have two reports. -/
theorem indentedByWorkList_inj_labelled :
    (∃ text, (labelled (.int 1)).reportByWorkList 2 = some (.ok text))
      ∧ (labelled (.int 1)).reportByWorkList 2 ≠ (labelled (.text "1")).reportByWorkList 2 := by
  have hint : (labelled (.int 1)).RealFree := realFree_labelled (by rintro x ⟨⟩)
  have htext : (labelled (.text "1")).RealFree := realFree_labelled (by rintro x ⟨⟩)
  obtain ⟨hprinted, hinj⟩ := indentedByWorkList_inj hint htext 2
  refine ⟨hprinted, fun h => ?_⟩
  cases hinj h

end Tree

end SyntaxForest
