import SyntaxForest.Bytes

/-!
# Reading UTF-8

A source is read one code unit sequence at a time. A malformed sequence is cut
as short as possible: the fault covers the longest piece that could still have
begun a character, so the byte at which it became impossible is read again.
Sources are decoded strictly when a file is opened, and leniently when a slice
of bytes, which may cut a character, is shown as text: every fault then becomes
one replacement character.
-/

namespace SyntaxForest.Text.Utf8

/-- Why a sequence is no character. -/
inductive Cause
  | badStart
  | badContinuation
  | cutShort
  deriving DecidableEq, Repr

/-- The wording of a cause. -/
def Cause.text : Cause → String
  | .badStart => "invalid start byte"
  | .badContinuation => "invalid continuation byte"
  | .cutShort => "unexpected end of data"

/-- **What stands at a position**: a character and its length in bytes, or a
fault and the number of bytes it covers. -/
inductive Step
  | char (c : Char) (width : Nat)
  | fault (cause : Cause) (width : Nat)
  deriving DecidableEq, Repr

namespace Step

/-- How many bytes a step consumes. -/
def width : Step → Nat
  | .char _ n => n
  | .fault _ n => n

end Step

/-- A byte of the form `10xxxxxx`. -/
def isContinuation (b : UInt8) : Bool := 0x80 ≤ b && b < 0xC0

/-- The six payload bits of a continuation byte. -/
def payload (b : UInt8) : Nat := b.toNat % 0x40

/-- Whether `b` may follow the lead byte: the bounds leave out overlong forms,
surrogates and code points past the last. -/
def allowsSecond (lead b : UInt8) : Bool :=
  isContinuation b
    && !(lead == 0xE0 && b < 0xA0) && !(lead == 0xED && 0xA0 ≤ b)
    && !(lead == 0xF0 && b < 0x90) && !(lead == 0xF4 && 0x90 ≤ b)

/-- The step taken on a nonempty sequence of bytes that begins with `lead`. -/
def step (lead : UInt8) (rest : List UInt8) : Step :=
  if lead < 0x80 then .char (Char.ofNat lead.toNat) 1
  else if lead < 0xC2 then .fault .badStart 1
  else if lead < 0xE0 then
    match rest with
    | [] => .fault .cutShort 1
    | b :: _ =>
      if isContinuation b then .char (Char.ofNat (lead.toNat % 0x20 * 0x40 + payload b)) 2
      else .fault .badContinuation 1
  else if lead < 0xF0 then
    match rest with
    | [] => .fault .cutShort 1
    | b :: more =>
      if allowsSecond lead b then
        match more with
        | [] => .fault .cutShort 2
        | c :: _ =>
          if isContinuation c then
            .char (Char.ofNat ((lead.toNat % 0x10 * 0x40 + payload b) * 0x40 + payload c)) 3
          else .fault .badContinuation 2
      else .fault .badContinuation 1
  else if lead < 0xF5 then
    match rest with
    | [] => .fault .cutShort 1
    | b :: more =>
      if allowsSecond lead b then
        match more with
        | [] => .fault .cutShort 2
        | c :: more =>
          if isContinuation c then
            match more with
            | [] => .fault .cutShort 3
            | d :: _ =>
              if isContinuation d then
                .char (Char.ofNat
                  (((lead.toNat % 0x08 * 0x40 + payload b) * 0x40 + payload c) * 0x40
                    + payload d)) 4
              else .fault .badContinuation 3
          else .fault .badContinuation 2
      else .fault .badContinuation 1
  else .fault .badStart 1

/-- **The steps by which a list of bytes is read.** -/
def steps : List UInt8 → List Step
  | [] => []
  | lead :: rest =>
    let s := step lead rest
    s :: steps (rest.drop (s.width - 1))
termination_by bs => bs.length
decreasing_by simp only [List.length_drop, List.length_cons]; omega

/-- **Lenient reading**: a replacement character stands for each fault. -/
def decodeLenient (src : Bytes) : String :=
  String.ofList <| (steps src.toList).map fun
    | .char c _ => c
    | .fault _ _ => '\uFFFD'

/-- The first malformed sequence of a source: its cause, its bytes and its
place. -/
structure Malformed where
  cause : Cause
  position : Nat
  bytes : List UInt8
  deriving DecidableEq, Repr

/-- Reads strictly, starting at `position`: the characters, or the first
fault. -/
def readFrom (position : Nat) (bytes : List UInt8) : List Step → Except Malformed (List Char)
  | [] => .ok []
  | .char c n :: rest => (readFrom (position + n) (bytes.drop n) rest).map (c :: ·)
  | .fault cause n :: _ => .error ⟨cause, position, bytes.take n⟩

/-- **Strict reading.** -/
def decode (src : Bytes) : Except Malformed String :=
  (readFrom 0 src.toList (steps src.toList)).map String.ofList

/-- A byte order mark, which may stand in front of a file. -/
def byteOrderMark : List UInt8 := [0xEF, 0xBB, 0xBF]

/-- **Strict reading of a file**, past a byte order mark. A fault's place is
counted from behind the mark. -/
def decodeFile (src : Bytes) : Except Malformed String :=
  if src.hasAt byteOrderMark 0 then decode (src.slice 3 src.size) else decode src

/-! ## Wording -/

/-- Two small hexadecimal digits. -/
def hexPair (b : UInt8) : String :=
  String.ofList [Nat.digitChar (b.toNat / 16), Nat.digitChar (b.toNat % 16)]

/-- The wording of a fault: one byte is shown, several are counted. -/
def Malformed.message (m : Malformed) : String :=
  match m.bytes with
  | [b] =>
    "'utf-8' codec can't decode byte 0x" ++ hexPair b ++ " in position "
      ++ toString m.position ++ ": " ++ m.cause.text
  | bs =>
    "'utf-8' codec can't decode bytes in position " ++ toString m.position ++ "-"
      ++ toString (m.position + bs.length - 1) ++ ": " ++ m.cause.text

end SyntaxForest.Text.Utf8
