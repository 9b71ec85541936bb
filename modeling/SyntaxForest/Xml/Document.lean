import SyntaxForest.Xml.Content
import SyntaxForest.Xml.Encoding
import SyntaxForest.Xml.Subset

/-!
# Documents

Bytes become a tree of elements: the encoding is found, the declaration of the
document read, then what stands in front of the root element, the root element
itself, and what stands behind it. The first fault ends reading.
-/

namespace SyntaxForest.Xml

/-- Why a document has no tree. -/
inductive Refusal
  | malformed (fault : Fault) (place : Place)
  | unknownEncoding
  | severalByteEncoding
  /-- The codec of the encoding, named as in the document, fails. -/
  | failingCodec (name : String) (fault : CodecFault)
  deriving DecidableEq, Repr

/-- The wording of a fault with its place. -/
def Refusal.message : Refusal → String
  | .malformed fault place =>
    fault.text ++ ": line " ++ toString place.line ++ ", column " ++ toString place.column
  | .unknownEncoding => "unknown encoding"
  | .severalByteEncoding => "multi-byte encodings are not supported"
  | .failingCodec name fault => fault.message name

/-- How a document is read: its encoding, all of its characters, and those not
yet used. -/
structure Reading where
  encoding : Encoding
  all : List Char
  rest : List Char

/-- The refusal at a located fault. -/
def Reading.refusal (r : Reading) (e : Located) : Refusal :=
  .malformed e.fault (Place.before r.all e.left)

/-- **The document goes on in another encoding**, from the byte reached. -/
def Reading.change (r : Reading) (e : Encoding) (bytes : List UInt8) : Reading :=
  if e = r.encoding then r
  else
    let used := r.all.take (r.all.length - r.rest.length)
    let offset := used.foldl (fun n c => n + r.encoding.width c) 0
    ⟨e, e.symbols bytes, e.symbols (bytes.drop offset)⟩

/-- The declaration of the document, if it has one: the reading behind it, and
whether the document stands alone. -/
def Reading.declaration (r : Reading) (bytes : List UInt8) : Except Refusal (Reading × Bool) :=
  match r.rest with
  | '<' :: '?' :: inner =>
    match instruction inner with
    | .error e => .error (r.refusal (e.located r.rest.length))
    | .ok ((false, _), _) => .ok (r, false)
    | .ok ((true, text), after) =>
      let located (fault : Fault) (left : Nat) : Refusal :=
        r.refusal ⟨fault, after.length + 2 + left⟩
      match selfDeclaration text with
      | .error left => .error (located .badDeclaration left)
      | .ok d =>
        let r := { r with rest := after }
        match d.encoding? with
        | none => .ok (r, d.standsAlone)
        | some (name, left) =>
          match r.encoding.declared name with
          | .known e => .ok (r.change e bytes, d.standsAlone)
          | .contradicted => .error (located .wrongEncoding left)
          | .unfit => .error (located .unknownEncoding left)
          | .unheardOf => .error .unknownEncoding
          | .severalBytes => .error .severalByteEncoding
          | .failing fault => .error (.failingCodec name fault)
  | _ => .ok (r, false)

/-- The root element of a document whose declaration has been read. -/
def Reading.root (r : Reading) (standsAlone : Bool) : Except Located Element :=
  match definitions (r.rest.length + 1) (.initial standsAlone) r.rest with
  | .error e => .error e
  | .ok (defs, rest) =>
    match content defs (defs.entities.length + 1) (rest.length + 1) [] 0 [] rest with
    | .error e => .error e
    | .ok (.inside _) => .error ⟨.noElement, 0⟩
    | .ok (.root e rest) => (remarksOnly (rest.length + 1) rest).map fun () => e

/-- **The root element of a document.** Where the document ends in half a unit,
that half is a token left open. -/
def parse (bytes : List UInt8) : Except Refusal Element :=
  match Encoding.ofBeginning? bytes with
  | none => .error (.malformed .unclosedToken ⟨1, 0⟩)
  | some encoding =>
    let all := encoding.symbols bytes
    let begun := match all with
      | '\uFEFF' :: rest => rest
      | _ => all
    match Reading.declaration ⟨encoding, all, begun⟩ bytes with
    | .error e => .error e
    | .ok (r, standsAlone) =>
      let isHalf := r.encoding.endsInHalf bytes
      match r.root standsAlone with
      | .error e =>
        let fault := if isHalf && e = ⟨.noElement, 0⟩ then .unclosedToken else e.fault
        .error (r.refusal ⟨fault, e.left⟩)
      | .ok e => if isHalf then .error (r.refusal ⟨.unclosedToken, 0⟩) else .ok e

end SyntaxForest.Xml
