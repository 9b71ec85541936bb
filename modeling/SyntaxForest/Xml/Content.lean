import SyntaxForest.Xml.Element

/-!
# The content of elements

Content is read with the elements that have begun, the innermost first. The text
of an entity is content in its own right: it has to close every element that it
begins and may close no other, and whatever is wrong in it is placed at the
reference.
-/

namespace SyntaxForest.Xml

/-- What reading content comes to: the root element closed and what follows it,
or the elements that have begun when a text ends. -/
inductive Reached
  | root (e : Element) (rest : List Char)
  | inside (frames : List Frame)

/-- Characters behind the text of the innermost element, unless it has children
already. -/
def addText (chars : List Char) : List Frame → List Frame
  | [] => []
  | f :: outer =>
    (if f.children.isEmpty then { f with text := chars.reverse ++ f.text } else f) :: outer

/-- The innermost element closed: it becomes a child of the next, or the root. -/
def closeInnermost (rest : List Char) : List Frame → Reached
  | [] => .inside []
  | [f] => .root f.close rest
  | f :: outer :: more => .inside ({ outer with children := f.close :: outer.children } :: more)

/-- The scope inside the innermost element. -/
def scopeInside : List Frame → Scope
  | [] => Scope.initial
  | f :: _ => f.scope

/-- **Reading content.** `base` counts the elements that had begun before the
text at hand; with none the text is the document's, which ends with its root
element. `depth` bounds how deep entities are followed and `fuel` the pieces of
one text. -/
def content (d : Definitions) :
    (depth fuel : Nat) → (opened : List (List Char)) → (base : Nat) → List Frame →
      List Char → Except Located Reached
  | 0, _, _, _, _, _ => .error ⟨.recursiveEntity, 0⟩
  | _ + 1, 0, _, _, _, _ => .error ⟨.noElement, 0⟩
  | depth + 1, fuel + 1, opened, base, frames, s =>
    let continueWith (frames : List Frame) (rest : List Char) :=
      content d (depth + 1) fuel opened base frames rest
    let closed : Reached → Except Located Reached
      | .root e rest => .ok (.root e rest)
      | .inside _ => .error ⟨.noElement, 0⟩
    match s with
    | [] =>
      if base = 0 then .error ⟨.noElement, 0⟩
      else if frames.length ≠ base then .error ⟨.asynchronousEntity, 0⟩
      else .ok (.inside frames)
    | '<' :: '/' :: rest =>
      match endTag rest with
      | .error e => .error (e.located s.length)
      | .ok (found, after) =>
        if frames.length = base then .error ⟨.asynchronousEntity, s.length⟩
        else
          match frames with
          | [] => .error ⟨.asynchronousEntity, s.length⟩
          | f :: _ =>
            if found ≠ f.written then .error ⟨.mismatchedTag, rest.length⟩
            else
              match closeInnermost after frames with
              | .root e rest => closed (.root e rest)
              | .inside frames => continueWith frames after
    | '<' :: '!' :: '-' :: rest =>
      match comment rest with
      | .error e => .error (e.located s.length)
      | .ok ((), after) => continueWith frames after
    | '<' :: '!' :: '[' :: rest =>
      match sectionStart rest with
      | .error e => .error (e.located s.length)
      | .ok ((), after) =>
        match sectionText after with
        | .error e => .error e
        | .ok (chars, after) => continueWith (addText chars frames) after
    | ['<', '!'] => .error ⟨.unclosedToken, s.length⟩
    | '<' :: '!' :: rest => .error ⟨.invalidToken, rest.length⟩
    | '<' :: '?' :: rest =>
      match instruction rest with
      | .error e => .error (e.located s.length)
      | .ok ((isDeclaration, _), after) =>
        if isDeclaration then .error ⟨.misplacedDeclaration, s.length⟩
        else continueWith frames after
    | '<' :: rest =>
      match startTag rest with
      | .error e => .error (e.located s.length)
      | .ok (tag, after) =>
        match tag.begin d opened (scopeInside frames) s.length with
        | .error e => .error e
        | .ok frame =>
          if tag.isEmpty then
            match closeInnermost after (frame :: frames) with
            | .root e rest => closed (.root e rest)
            | .inside frames => continueWith frames after
          else continueWith (frame :: frames) after
    | '&' :: rest =>
      match reference rest with
      | .error e => .error (e.located s.length)
      | .ok (.number n, after) =>
        match charOfNumber? n with
        | none => .error ⟨.invalidNumber, s.length⟩
        | some c => continueWith (addText [c] frames) after
      | .ok (.entity name, after) =>
        match predefined? name with
        | some c => continueWith (addText [c] frames) after
        | none =>
          match d.entity? name with
          | none =>
            if d.isComplete then .error ⟨.undefinedEntity, s.length⟩
            else .error ⟨.skippedEntity (String.ofList name), s.length⟩
          | some entity =>
            if opened.contains name then .error ⟨.recursiveEntity, s.length⟩
            else
              match entity with
              | .unparsed => .error ⟨.unparsedEntity, s.length⟩
              | .outside => .error ⟨.skippedEntity (String.ofList name), s.length⟩
              | .text text =>
                match content d depth (text.length + 1) (name :: opened) frames.length frames
                    text with
                | .error e => .error ⟨e.fault, s.length⟩
                | .ok (.root e rest) => .ok (.root e rest)
                | .ok (.inside frames) => continueWith frames after
    | ']' :: ']' :: '>' :: rest => .error ⟨.invalidToken, rest.length + 1⟩
    | ['\r'] =>
      if base = 0 then .error ⟨.noElement, s.length⟩
      else continueWith (addText ['\n'] frames) []
    | '\r' :: '\n' :: rest => continueWith (addText ['\n'] frames) rest
    | '\r' :: rest => continueWith (addText ['\n'] frames) rest
    | c :: rest =>
      if c = cutOff then .error ⟨.partialCharacter, s.length⟩
      else if isForbidden c then .error ⟨.invalidToken, s.length⟩
      else continueWith (addText [c] frames) rest
termination_by depth fuel => (depth, fuel)

end SyntaxForest.Xml
