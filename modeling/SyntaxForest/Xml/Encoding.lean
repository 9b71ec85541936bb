import SyntaxForest.Bytes
import SyntaxForest.Text.Utf8
import SyntaxForest.Xml.CodePage
import SyntaxForest.Xml.Symbol

/-!
# From bytes to the characters of a document

A document that begins with a byte order mark, or with a null byte among its
first two, is in sixteen-bit units; every other is read as UTF-8 until its own
declaration names another encoding. Bytes that mean nothing become the symbol
`illegal`, so that a fault is found only when reading gets to them.
-/

namespace SyntaxForest.Xml

/-- How the bytes of a document are read. -/
inductive Encoding
  | utf8
  | units (bigEndian : Bool)
  | single (upper : List Char)
  deriving DecidableEq, Repr

/-! ## Reading -/

/-- How many bytes a character that starts with `lead` takes. -/
def utf8Width (lead : UInt8) : Nat :=
  if lead < 0xC0 then 1
  else if lead < 0xE0 then 2
  else if lead < 0xF0 then 3
  else if lead < 0xF5 then 4
  else 1

/-- The characters of UTF-8 bytes: a lead byte with too few bytes behind it is
a character cut off, whatever those bytes are. -/
def utf8Symbols : List UInt8 → List Char
  | [] => []
  | lead :: rest =>
    if rest.length + 1 < utf8Width lead then [cutOff]
    else
      match Text.Utf8.step lead rest with
      | .char c n =>
        (if c.toNat == 0xFFFE || c == cutOff then illegal else c)
          :: utf8Symbols (rest.drop (n - 1))
      | .fault _ _ => illegal :: utf8Symbols rest
termination_by bs => bs.length
decreasing_by all_goals simp; try omega

/-- The sixteen-bit units of bytes; an odd last byte is left out. -/
def unitsOf (bigEndian : Bool) : List UInt8 → List Nat
  | a :: b :: rest =>
    (if bigEndian then a.toNat * 256 + b.toNat else b.toNat * 256 + a.toNat)
      :: unitsOf bigEndian rest
  | _ => []

/-- The characters of sixteen-bit units. Whatever unit follows a high surrogate
gives the lower ten bits. -/
def unitSymbols : List Nat → List Char
  | [] => []
  | u :: rest =>
    if 0xD800 ≤ u && u < 0xDC00 then
      match rest with
      | [] => [cutOff]
      | v :: more =>
        Char.ofNat (0x10000 + (u - 0xD800) * 0x400 + v % 0x400) :: unitSymbols more
    else if (0xDC00 ≤ u && u < 0xE000) || u == 0xFFFE || u == 0xFFFF then
      illegal :: unitSymbols rest
    else Char.ofNat u :: unitSymbols rest

/-- The character of one byte, where `upper` names those of the highest bytes. -/
def singleSymbol (upper : List Char) (b : UInt8) : Char :=
  let above := 256 - upper.length
  if b.toNat < above then Char.ofNat b.toNat
  else
    match upper[b.toNat - above]? with
    | some c => if c == '\uFFFD' then illegal else c
    | none => illegal

/-- **The characters of a document's bytes.** -/
def Encoding.symbols : Encoding → List UInt8 → List Char
  | .utf8, bs => utf8Symbols bs
  | .units big, bs => unitSymbols (unitsOf big bs)
  | .single upper, bs => bs.map (singleSymbol upper)

/-- How many bytes an encoding takes for a character. -/
def Encoding.width : Encoding → Char → Nat
  | .utf8, c => c.utf8Size
  | .units _, c => if c.toNat < 0x10000 then 2 else 4
  | .single _, _ => 1

/-- Whether bytes end in half a unit. -/
def Encoding.endsInHalf : Encoding → List UInt8 → Bool
  | .units _, bs => bs.length % 2 == 1
  | _, _ => false

/-! ## Which encoding -/

/-- **The encoding that the first bytes tell.** None for a beginning too short
to tell. -/
def Encoding.ofBeginning? : List UInt8 → Option Encoding
  | [] => some .utf8
  | [a] => if [0x00, 0x3C, 0xEF, 0xFE, 0xFF].contains a then none else some .utf8
  | [0xEF, 0xBB] => none
  | a :: b :: _ =>
    if a == 0xFE && b == 0xFF then some (.units true)
    else if a == 0xFF && b == 0xFE then some (.units false)
    else if a == 0 then some (.units true)
    else if b == 0 then some (.units false)
    else some .utf8

/-- What a declared encoding comes to. -/
inductive Declared
  /-- Reading goes on in this encoding. -/
  | known (e : Encoding)
  /-- The bytes so far cannot be in this encoding. -/
  | contradicted
  /-- The encoding is known but not fit for a document. -/
  | unfit
  /-- No encoding has this name. -/
  | unheardOf
  /-- Some characters of the encoding take several bytes. -/
  | severalBytes
  /-- The encoding's codec fails. -/
  | failing (fault : CodecFault)
  deriving DecidableEq, Repr

/-- The plain form of an encoding's name: small letters, digits and periods,
with one underscore for whatever stands between them. -/
def plainName (name : String) : String :=
  let rec go (gap : Bool) (begun : Bool) : List Char → List Char
    | [] => []
    | c :: rest =>
      if c.isAlphanum || c == '.' then
        (if gap && begun then ['_'] else []) ++ c.toLower :: go false true rest
      else go true begun rest
  String.ofList (go false false name.toList)

/-- What a page of the table comes to in a declaration. -/
def CodePage.declared (page : CodePage) : Declared :=
  match page.table with
  | .characters upper => .known (.single upper.toList)
  | .severalBytes => .severalBytes
  | .foreign => .unfit
  | .failing fault => .failing fault

/-- **What the encoding named in a declaration comes to**, in a document whose
declaration was read in encoding `now`. -/
def Encoding.declared (now : Encoding) (name : String) : Declared :=
  let built (e : Encoding) : Declared :=
    match now, e with
    | .units _, .units _ => if now = e then .known now else .contradicted
    | .units _, _ => .contradicted
    | _, .units _ => .contradicted
    | _, e => .known e
  match name.toLower with
  | "utf-8" => built .utf8
  | "iso-8859-1" => built (.single [])
  | "us-ascii" => built (.single (noCharacters 128).toList)
  | "utf-16" => match now with
    | .units _ => .known now
    | _ => .contradicted
  | "utf-16be" => built (.units true)
  | "utf-16le" => built (.units false)
  | _ => ((codePage? (plainName name)).map (·.declared)).getD .unheardOf

end SyntaxForest.Xml
