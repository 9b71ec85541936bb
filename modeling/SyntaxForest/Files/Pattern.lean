import SyntaxForest.Files.Store

/-!
# Patterns of paths

A pattern names files by the shape of their paths. In each part a star stands
for any characters, a question mark for one, and brackets for one of a set; a
part of two stars stands for any number of directories. Letter case counts.
-/

namespace SyntaxForest

/-- A piece of a pattern for a name. -/
inductive NamePiece
  | one (c : Char)
  | anyChar
  | anyText
  /-- One character inside one of the ranges, or inside none of them. -/
  | inRanges (ranges : List (Char × Char)) (outside : Bool)
  deriving DecidableEq, Repr

namespace NamePiece

/-- Whether a character is one that the piece stands for. -/
def admits (p : NamePiece) (c : Char) : Bool :=
  match p with
  | one d => c = d
  | anyChar => true
  | anyText => true
  | inRanges ranges outside => (ranges.any fun (a, b) => a ≤ c && c ≤ b) != outside

/-- **Whether a name is made of pieces.** -/
def matchesAll : List NamePiece → List Char → Bool
  | [], s => s.isEmpty
  | .anyText :: rest, s =>
    matchesAll rest s ||
      match s with
      | [] => false
      | _ :: more => matchesAll (.anyText :: rest) more
  | p :: rest, s =>
    match s with
    | [] => false
    | c :: more => p.admits c && matchesAll rest more
termination_by ps s => (ps.length, s.length)

/-! ## Sets -/

/-- The text of a set cut at the hyphens that may make a range. A hyphen counts
only behind `skip` characters: one at the beginning of the set, behind the mark of
a set that is left out, and two between two hyphens, so that the end of a range is
not taken for the beginning of another. -/
def stretches (skip : Nat) (stretch : List Char) : List Char → List (List Char)
  | [] => [stretch.reverse]
  | c :: rest =>
    if 0 < skip then stretches (skip - 1) (c :: stretch) rest
    else if c = '-' then stretch.reverse :: stretches 2 [] rest
    else stretches 0 (c :: stretch) rest

/-- A hyphen at the end of a set stands for itself. -/
def keepLastHyphen : List (List Char) → List (List Char)
  | [s, []] => [s ++ ['-']]
  | s :: rest => s :: keepLastHyphen rest
  | [] => []

/-- Stretches without the ranges that run backwards. -/
def dropBackwards : List (List Char) → List (List Char)
  | [] => []
  | s :: rest =>
    match dropBackwards rest with
    | [] => [s]
    | next :: more =>
      match s.getLast?, next.head? with
      | some a, some b =>
        if b < a then (s.dropLast ++ next.drop 1) :: more else s :: next :: more
      | _, _ => s :: next :: more

/-- Characters as ranges of their own. -/
def singles (s : List Char) : List (Char × Char) := s.map fun c => (c, c)

/-- **The ranges of stretches**: from the end of each to the beginning of the
next, and every other character by itself. -/
def rangesOf : List (List Char) → List (Char × Char)
  | [] => []
  | [s] => singles s
  | s :: next :: rest =>
    match s.getLast?, next with
    | some a, b :: inner => singles s.dropLast ++ (a, b) :: rangesOf (inner :: rest)
    | _, _ => singles s ++ ('-', '-') :: rangesOf (next :: rest)
termination_by l => l.length

/-- **The set that stands between brackets.** A mark at its beginning, once the
ranges that run backwards are gone, makes it a set of characters left out. -/
def ofSet (text : List Char) : NamePiece :=
  let skip := if text.head? = some '!' then 2 else 1
  match dropBackwards (keepLastHyphen (stretches skip [] text)) with
  | ('!' :: s) :: rest => .inRanges (rangesOf (s :: rest)) true
  | whole => .inRanges (rangesOf whole) false

/-- The text of a set from behind its opening bracket, and what follows the closing
bracket. A closing bracket at the beginning stands for itself. -/
def setText? (s : List Char) : Option (List Char × List Char) :=
  let (front, s) := match s with
    | '!' :: ']' :: rest => (['!', ']'], rest)
    | '!' :: rest => (['!'], rest)
    | ']' :: rest => ([']'], rest)
    | _ => ([], s)
  match s.dropWhile (· != ']') with
  | _ :: rest => some (front ++ s.takeWhile (· != ']'), rest)
  | [] => none

/-- The pieces of a pattern for a name. The count bounds the pieces. -/
def piecesOf : (fuel : Nat) → List Char → List NamePiece
  | 0, _ => []
  | _ + 1, [] => []
  | fuel + 1, '*' :: rest => .anyText :: piecesOf fuel rest
  | fuel + 1, '?' :: rest => .anyChar :: piecesOf fuel rest
  | fuel + 1, '[' :: rest =>
    match setText? rest with
    | some (text, after) => ofSet text :: piecesOf fuel after
    | none => .one '[' :: piecesOf fuel rest
  | fuel + 1, c :: rest => .one c :: piecesOf fuel rest

/-- **The pieces of a pattern for a name.** -/
def ofText (s : String) : List NamePiece := piecesOf (s.length + 1) s.toList

end NamePiece

/-! ## Paths -/

/-- A part of a pattern for paths. -/
inductive PathPiece
  | anyDirectories
  | exactly (name : String)
  | shaped (pieces : List NamePiece)
  /-- What the part before names has to be a directory. -/
  | directory
  deriving DecidableEq, Repr

/-- Why a text is no pattern. -/
inductive PatternFault
  | notRelative
  | starsInName
  deriving DecidableEq, Repr

/-- The wording of a fault. -/
def PatternFault.message : PatternFault → String
  | .notRelative => "Non-relative patterns are unsupported"
  | .starsInName => "Invalid pattern: '**' can only be an entire path component"

namespace PathPiece

/-- Whether a text holds a character with a meaning in patterns. -/
def isPattern (s : String) : Bool := s.toList.any fun c => c = '*' || c = '?' || c = '['

/-- The piece that a name in a pattern is. -/
def ofName (n : String) : Except PatternFault PathPiece :=
  if n = "**" then .ok .anyDirectories
  else if 1 < (Text.split "**" n).length then .error .starsInName
  else if isPattern n then .ok (.shaped (NamePiece.ofText n))
  else .ok (.exactly n)

/-- **The pieces of a pattern.** -/
def ofText (s : String) : Except PatternFault (List PathPiece) :=
  let p := Path.ofText s
  if p.isAbsolute then .error .notRelative
  else
    match p.names.mapM ofName with
    | .error e => .error e
    | .ok pieces => .ok (if Text.endsWith s "/" then pieces ++ [.directory] else pieces)

end PathPiece

namespace Entry

mutual

/-- The ways to the directories at and below an entry, the entry's own first. -/
def directoryWays : Entry → List (List String)
  | .file _ => []
  | .directory es => [] :: directoryWaysIn es

/-- The ways to the directories at and below listed entries. -/
def directoryWaysIn : List (String × Entry) → List (List String)
  | [] => []
  | e :: rest => directoryWaysAt e ++ directoryWaysIn rest

/-- The ways to the directories at and below a named entry. -/
def directoryWaysAt : String × Entry → List (List String)
  | (name, e) => (directoryWays e).map (name :: ·)

end

end Entry

/-- Why a pattern names no files: it is none, or it leads to a path whose last name is
too long for a file. -/
inductive MatchFault
  | pattern (fault : PatternFault)
  | nameTooLong (path : Path)
  deriving DecidableEq, Repr

namespace Files

/-- **What pieces come upon below a directory**, in this order: the paths that they
name, and for a name that is too long its path as a fault. Whether something is at a
name that the pattern tells is asked of the disk; the other names are found there. -/
def select (f : Files) : List PathPiece → Path → List (Except Path Path)
  | [], at' => [.ok at']
  | .directory :: rest, at' => select f rest at'
  | .exactly n :: rest, at' =>
    let p := { at' with names := at'.names ++ [n] }
    match f.find? p with
    | .error .nameTooLong => [.error p]
    | .error _ => []
    | .ok e => if rest.isEmpty || e.isDirectory then select f rest p else []
  | .shaped pieces :: rest, at' =>
    (f.entriesAt at').flatMap fun (n, e) =>
      if (rest.isEmpty || e.isDirectory) && NamePiece.matchesAll pieces n.toList then
        select f rest { at' with names := at'.names ++ [n] }
      else []
  | .anyDirectories :: rest, at' =>
    match f.find? at' with
    | .error _ => []
    | .ok e =>
      e.directoryWays.flatMap fun way => select f rest { at' with names := at'.names ++ way }

/-- **The files below a directory that a pattern names**, in the order of their
names. The first fault that the pattern comes upon ends the search. -/
def matching (f : Files) (directory : Path) (pattern : String) :
    Except MatchFault (List Path) :=
  match PathPiece.ofText pattern with
  | .error e => .error (.pattern e)
  | .ok pieces =>
    if f.isDirectory directory then
      match (f.select pieces directory).mapM id with
      | .error p => .error (.nameTooLong p)
      | .ok found => .ok ((found.filter f.isFile).mergeSort fun a b => !(b.names < a.names))
    else .ok []

end Files

end SyntaxForest
