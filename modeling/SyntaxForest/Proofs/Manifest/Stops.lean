import SyntaxForest.Proofs.Manifest.Parts

/-!
# What stops the reading of a manifest

A manifest that does not read is refused, with its path and a reason, or it stops its reader
altogether. It does the latter for three causes only (`stops_iff`): a path with a null character,
an encoding that is named and that no document can be read in, and an item of an MSBuild project
whose list has a part that cannot be used (`BadPart`). The first such part in the order in which
the items are read tells the fault.
-/

namespace SyntaxForest

/-! ## Encodings -/

namespace Xml

/-- The encoding that a document names in its declaration, if its characters are these. -/
def namedEncoding? : List Char → Option String
  | '<' :: '?' :: inner =>
    match instruction inner with
    | .ok ((true, text), _) =>
      match selfDeclaration text with
      | .ok d => d.encoding?.map (·.1)
      | .error _ => none
    | _ => none
  | _ => none

/-- **The encoding that a document names**, with the one in which its declaration is read. -/
def declaredEncoding? (bytes : List UInt8) : Option (Encoding × String) :=
  match Encoding.ofBeginning? bytes with
  | none => none
  | some encoding =>
    let all := encoding.symbols bytes
    let begun := match all with
      | '\uFEFF' :: rest => rest
      | _ => all
    (namedEncoding? begun).map fun name => (encoding, name)

/-- The refusals that have no place in the document. -/
def Refusal.unplaced? : Refusal → Option Refusal
  | .malformed .. => none
  | refusal => some refusal

/-- **What a document is refused for at no place** that names an encoding: nobody has heard of
it, its characters may take several bytes, or its codec fails. -/
def Declared.refusal? (name : String) : Declared → Option Refusal
  | .unheardOf => some .unknownEncoding
  | .severalBytes => some .severalByteEncoding
  | .failing fault => some (.failingCodec name fault)
  | _ => none

theorem unplaced?_declaration (encoding : Encoding) (all begun : List Char)
    (bytes : List UInt8) :
    (fault? (Reading.declaration ⟨encoding, all, begun⟩ bytes)).bind Refusal.unplaced?
      = (namedEncoding? begun).bind fun name => (encoding.declared name).refusal? name := by
  unfold Reading.declaration
  dsimp only
  split
  · next inner =>
    rw [namedEncoding?]
    rcases instruction inner with _ | ⟨⟨_ | _, text⟩, after⟩
    · rfl
    · rfl
    · dsimp only
      rcases selfDeclaration text with _ | ⟨_ | ⟨name, left⟩, standsAlone⟩
      · rfl
      · rfl
      · dsimp only [Option.map_some, Option.bind_some]
        cases encoding.declared name <;> rfl
  · next hnone =>
    have hnamed : namedEncoding? begun = none := by
      rw [namedEncoding?]
      exact hnone
    rw [hnamed]
    rfl

/-- **What a document is refused for without a place** is the encoding that it names. -/
theorem unplaced?_parse (bytes : List UInt8) :
    (fault? (parse bytes)).bind Refusal.unplaced?
      = (declaredEncoding? bytes).bind
        fun named => (named.1.declared named.2).refusal? named.2 := by
  unfold parse declaredEncoding?
  cases Encoding.ofBeginning? bytes with
  | none => rfl
  | some encoding =>
    dsimp only
    rw [Option.bind_map, Function.comp_def,
      ← unplaced?_declaration encoding (encoding.symbols bytes) _ bytes]
    cases Reading.declaration ⟨encoding, encoding.symbols bytes, _⟩ bytes with
    | error refusal => rfl
    | ok read =>
      obtain ⟨r, standsAlone⟩ := read
      dsimp only
      cases r.root standsAlone with
      | error e => rfl
      | ok e =>
        dsimp only
        split <;> rfl

theorem Declared.unplaced?_of_refusal? {d : Declared} {name : String} {r : Refusal}
    (h : d.refusal? name = some r) : r.unplaced? = some r := by
  cases d <;> cases h <;> rfl

theorem parse_eq_error_iff {bytes : List UInt8} {r : Refusal}
    (hunplaced : r.unplaced? = some r) :
    parse bytes = .error r ↔ ∃ now name, declaredEncoding? bytes = some (now, name)
      ∧ (now.declared name).refusal? name = some r := by
  have hparse : parse bytes = .error r
      ↔ (fault? (parse bytes)).bind Refusal.unplaced? = some r := by
    rw [← fault?_eq_some_iff, Option.bind_eq_some_iff]
    refine ⟨fun h => ⟨r, h, hunplaced⟩, fun ⟨r', h, h'⟩ => ?_⟩
    cases r' with
    | malformed => cases h'
    | _ => rwa [← Option.some.inj h']
  rw [hparse, unplaced?_parse, Option.bind_eq_some_iff, Prod.exists]

end Xml

/-! ## Manifests -/

namespace Manifest

/-- The file at a path, made absolute, has this content. -/
structure Holds (f : Files) (path absolute : Path) (content : Bytes) : Prop where
  resolve : resolve f path = .ok absolute
  read : f.read absolute = .ok content

/-- **What stops the reading of a manifest.** -/
inductive Stops (f : Files) (path : Path) : Fault → Prop
  | nullCharacter {name} (hname : name ∈ path.names) (hnull : '\x00' ∈ name.toList) :
      Stops f path .nullCharacter
  /-- The manifest names an encoding that no document can be read in. -/
  | encoding {absolute content now name refusal} (hcontent : Holds f path absolute content)
      (hnamed : Xml.declaredEncoding? content.toList = some (now, name))
      (hdeclared : (now.declared name).refusal? name = some refusal) :
      Stops f path (.ofXml absolute refusal)
  /-- An item of an MSBuild project has a part that cannot be used; it is the first one. -/
  | badPart {absolute content root before part after fault}
      (hcontent : Holds f path absolute content)
      (hroot : Xml.parse content.toList = .ok root) (hkind : kind? absolute = some .msbuild)
      (hparts : MSBuild.projectParts root = before ++ part :: after)
      (hbefore : ∀ p ∈ before, ∀ fault, ¬ BadPart f absolute.parent p fault)
      (hpart : BadPart f absolute.parent part fault) : Stops f path fault

theorem resolve_eq_error_iff {f : Files} {path : Path} {fault : Fault} :
    resolve f path = .error fault
      ↔ fault = .nullCharacter ∧ ∃ name ∈ path.names, '\x00' ∈ name.toList := by
  unfold resolve
  split
  · next h =>
    rw [List.any_eq_true] at h
    simp only [List.contains_iff_mem] at h
    exact ⟨fun heq => ⟨(Except.error.inj heq).symm, h⟩, fun heq => congrArg _ heq.1.symm⟩
  · next h =>
    rw [List.any_eq_true] at h
    simp only [List.contains_iff_mem] at h
    exact ⟨fun heq => (nomatch heq), fun heq => absurd heq.2 h⟩

/-- **Reading a manifest that is there.** -/
theorem readProject_of_holds {f : Files} {path absolute : Path} {content : Bytes}
    (hcontent : Holds f path absolute content) (supported excluded : List String) :
    fault? (readProject f supported excluded path) = match Xml.parse content.toList with
      | .error refusal => some (.ofXml absolute refusal)
      | .ok root => match kind? absolute with
        | none => some (.refused absolute .unknownKind)
        | some .maven => none
        | some .msbuild => fault? (MSBuild.sources f absolute.parent (supported.map Text.lower)
            excluded root) := by
  unfold readProject readXml
  rw [hcontent.resolve]
  dsimp only [bind, Except.bind]
  rw [hcontent.read]
  dsimp only
  cases Xml.parse content.toList with
  | error refusal => rfl
  | ok root =>
    dsimp only [Except.mapError]
    cases kind? absolute with
    | none => rfl
    | some kind =>
      cases kind with
      | maven => rfl
      | msbuild =>
        dsimp only
        cases MSBuild.sources f absolute.parent (supported.map Text.lower) excluded root <;> rfl

/-- A part that cannot be used makes no refusal. -/
theorem BadPart.ne_refused {f : Files} {directory : Path} {part : String} {fault : Fault}
    (h : BadPart f directory part fault) (p : Path) (reason : Reason) :
    fault ≠ .refused p reason := by
  cases h <;> exact fun heq => by cases heq

/-- What stops the reading of a manifest is no refusal of it. -/
theorem Stops.readProject {f : Files} {path : Path} {fault : Fault} (h : Stops f path fault)
    (supported excluded : List String) :
    readProject f supported excluded path = .error fault
      ∧ ∀ p reason, fault ≠ .refused p reason := by
  cases h with
  | nullCharacter hname hnull =>
    refine ⟨?_, nofun⟩
    unfold Manifest.readProject
    rw [resolve_eq_error_iff.mpr ⟨rfl, _, hname, hnull⟩]
    rfl
  | encoding hcontent hnamed hdeclared =>
    have hunplaced := Xml.Declared.unplaced?_of_refusal? hdeclared
    have hparse := (Xml.parse_eq_error_iff hunplaced).mpr ⟨_, _, hnamed, hdeclared⟩
    constructor
    · rw [← fault?_eq_some_iff, readProject_of_holds hcontent, hparse]
    · rename_i refusal
      cases refusal with
      | malformed => cases hunplaced
      | _ => exact nofun
  | badPart hcontent hroot hkind hparts hbefore hpart =>
    refine ⟨?_, hpart.ne_refused⟩
    rw [← fault?_eq_some_iff, readProject_of_holds hcontent, hroot]
    dsimp only
    rw [hkind]
    exact MSBuild.fault?_sources_eq_some_iff.mpr ⟨_, _, _, hparts, hbefore, hpart⟩

/-- A manifest that is there stops the reading unless it reads or is refused. -/
theorem stops_of_holds {f : Files} {path absolute : Path} {content : Bytes}
    {supported excluded : List String} {fault : Fault}
    (hcontent : Holds f path absolute content)
    (h : readProject f supported excluded path = .error fault)
    (hnot : ∀ p reason, fault ≠ .refused p reason) : Stops f path fault := by
  have hfault := readProject_of_holds hcontent supported excluded
  rw [h] at hfault
  cases hparse : Xml.parse content.toList with
  | error refusal =>
    rw [hparse] at hfault
    obtain rfl : fault = .ofXml absolute refusal := Option.some.inj hfault
    have hunplaced : refusal.unplaced? = some refusal := by
      cases refusal with
      | malformed => exact absurd rfl (hnot _ _)
      | _ => rfl
    obtain ⟨now, name, hnamed, hdeclared⟩ := (Xml.parse_eq_error_iff hunplaced).mp hparse
    exact .encoding hcontent hnamed hdeclared
  | ok root =>
    rw [hparse] at hfault
    dsimp only at hfault
    cases hkind : kind? absolute with
    | none =>
      rw [hkind] at hfault
      exact absurd (Option.some.inj hfault) (hnot _ _)
    | some kind =>
      rw [hkind] at hfault
      cases kind with
      | maven => cases hfault
      | msbuild =>
        obtain ⟨before, part, after, hparts, hbefore, hpart⟩ :=
          MSBuild.fault?_sources_eq_some_iff.mp hfault.symm
        exact .badPart hcontent hparse hkind hparts hbefore hpart

/-- **A manifest stops its reader** if and only if it neither reads nor is refused. -/
theorem stops_iff {f : Files} {path : Path} {fault : Fault} (supported excluded : List String) :
    Stops f path fault ↔ readProject f supported excluded path = .error fault
      ∧ ∀ p reason, fault ≠ .refused p reason := by
  refine ⟨fun h => h.readProject supported excluded, fun ⟨h, hnot⟩ => ?_⟩
  cases hresolve : resolve f path with
  | error fault' =>
    unfold readProject at h
    rw [hresolve] at h
    obtain rfl : fault' = fault := Except.error.inj h
    obtain ⟨rfl, name, hname, hnull⟩ := resolve_eq_error_iff.mp hresolve
    exact .nullCharacter hname hnull
  | ok absolute =>
    cases hread : f.read absolute with
    | error fault' =>
      unfold readProject readXml at h
      rw [hresolve] at h
      dsimp only [bind, Except.bind] at h
      rw [hread] at h
      exact absurd (Except.error.inj h).symm (hnot _ _)
    | ok content => exact stops_of_holds ⟨hresolve, hread⟩ h hnot

end Manifest

end SyntaxForest
