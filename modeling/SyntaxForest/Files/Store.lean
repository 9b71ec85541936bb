import SyntaxForest.Bytes
import SyntaxForest.Files.Path
import SyntaxForest.Text.Quoted
import SyntaxForest.Text.Utf8

/-!
# Files

The files that an analysis sees: a tree of directories, and the directory that
relative paths start from. A path is followed name by name, so a step back is a
step to the directory above whatever was reached, and a path through a file
leads nowhere even if it comes back.

A directory's entries stand in the order in which the disk lists them. Everything
in the tree may be read; a directory that may not be listed is one without
entries. Links, and who may enter what, are no part of it.
-/

namespace SyntaxForest

/-- **A file or a directory.** -/
inductive Entry where
  | file (content : Bytes)
  | directory (entries : List (String × Entry))

namespace Entry

/-- A directory without entries. -/
def emptyDirectory : Entry := .directory []

/-- Whether an entry is a directory. -/
def isDirectory : Entry → Bool
  | directory _ => true
  | file _ => false

/-- What a directory holds; a file holds nothing. -/
def entries : Entry → List (String × Entry)
  | directory es => es
  | file _ => []

/-- Entries with the one of a name replaced, or a new one at the end. -/
def setEntry (name : String) (e : Entry) : List (String × Entry) → List (String × Entry)
  | [] => [(name, e)]
  | (n, old) :: rest => if n = name then (n, e) :: rest else (n, old) :: setEntry name e rest

/-- **An entry with another one put at the end of a way of names**; directories
on the way are made, and a directory that is there already stays. -/
def put : List String → Entry → Entry → Entry
  | [], old, new => if new.isDirectory && old.isDirectory then old else new
  | n :: names, old, new =>
    .directory (setEntry n (put names ((old.entries.lookup n).getD emptyDirectory) new)
      old.entries)

end Entry

/-- Why a file cannot be used. -/
inductive Trouble
  | missing
  | exists
  | notDirectory
  | isDirectory
  | nameTooLong
  /-- No path holds a null character. -/
  | nullCharacter
  deriving DecidableEq, Repr

/-- The number and the wording of a trouble. -/
def Trouble.text : Trouble → String
  | .missing => "[Errno 2] No such file or directory"
  | .exists => "[Errno 17] File exists"
  | .notDirectory => "[Errno 20] Not a directory"
  | .isDirectory => "[Errno 21] Is a directory"
  | .nameTooLong => "[Errno 36] File name too long"
  | .nullCharacter => "embedded null byte"

/-- **A file that cannot be used**: the path as it was given, and why. -/
structure FileFault where
  path : Path
  trouble : Trouble
  deriving DecidableEq, Repr

/-- The wording of a fault, which names the path. -/
def FileFault.message (f : FileFault) : String :=
  match f.trouble with
  | .nullCharacter => f.trouble.text
  | t => t.text ++ ": " ++ Text.quoted f.path.text

/-- **The files at hand.** -/
structure Files where
  root : Entry
  here : Path

namespace Files

/-- No files but the current directory. -/
def empty (here : Path) : Files :=
  ⟨Entry.put here.names .emptyDirectory .emptyDirectory, here⟩

/-- The entry reached by names from a place, given as the entries on the way to
it, the innermost first. -/
def follow : List String → List Entry → Except Trouble Entry
  | _, [] => .error .missing
  | [], e :: _ => .ok e
  | n :: names, e :: above =>
    if !e.isDirectory then .error .notDirectory
    else if n = ".." then follow names (if above.isEmpty then [e] else above)
    else if 255 < n.utf8ByteSize then .error .nameTooLong
    else
      match e.entries.lookup n with
      | some inner => follow names (inner :: e :: above)
      | none => .error .missing

/-- **What is at a path.** -/
def find? (f : Files) (p : Path) : Except Trouble Entry :=
  let names := (f.here.join p).names
  if names.any (·.toList.contains '\x00') then .error .nullCharacter
  else follow names [f.root]

/-- Whether something is at a path. -/
def has (f : Files) (p : Path) : Bool := (f.find? p).toOption.isSome

/-- Whether a directory is at a path. -/
def isDirectory (f : Files) (p : Path) : Bool := (f.find? p).toOption.any (·.isDirectory)

/-- Whether a file is at a path. -/
def isFile (f : Files) (p : Path) : Bool := (f.find? p).toOption.any (!·.isDirectory)

/-- What the directory at a path holds. -/
def entriesAt (f : Files) (p : Path) : List (String × Entry) :=
  match f.find? p with
  | .ok e => e.entries
  | .error _ => []

/-- The absolute path of a path. -/
def resolve (f : Files) (p : Path) : Path := Path.resolve f.here p

/-- **The bytes of a file.** -/
def read (f : Files) (p : Path) : Except FileFault Bytes :=
  match f.find? p with
  | .error t => .error ⟨p, t⟩
  | .ok (.directory _) => .error ⟨p, .isDirectory⟩
  | .ok (.file content) => .ok content

/-- The files with an entry put at a path. -/
def put (f : Files) (p : Path) (e : Entry) : Files :=
  { f with root := f.root.put (f.resolve p).names e }

/-! ## Source text -/

/-- Why the text of a source cannot be read. -/
inductive ReadFault
  | file (fault : FileFault)
  | notText (malformed : Text.Utf8.Malformed)

/-- The wording of a fault. -/
def ReadFault.message : ReadFault → String
  | .file fault => fault.message
  | .notText m => m.message

/-- **The text of a source file**, without a byte order mark. -/
def readText (f : Files) (p : Path) : Except ReadFault String :=
  match f.read p with
  | .error fault => .error (.file fault)
  | .ok bytes => (Text.Utf8.decodeFile bytes).mapError .notText

end Files

end SyntaxForest
