import SyntaxForest.Files.Pattern
import SyntaxForest.Xml.Document

/-!
# Manifests that cannot be read

A manifest is refused with its path and a reason. The other faults are no
refusals of a manifest but go past its reader: a pattern that is no pattern or
leads to a name too long for a file, an encoding that no document can be read
in, and a path with a null character. Whoever reads many manifests can set a
refused one aside, and is stopped by the others.
-/

namespace SyntaxForest.Manifest

/-- Why a manifest is refused. -/
inductive Reason
  | file (fault : FileFault)
  | notText (malformed : Text.Utf8.Malformed)
  | notXml (fault : Xml.Fault) (place : Xml.Place)
  | unknownKind
  | notSolution

/-- The wording of a reason. -/
def Reason.text : Reason → String
  | .file fault => fault.message
  | .notText m => m.message
  | .notXml fault place => "invalid XML: " ++ (Xml.Refusal.malformed fault place).message
  | .unknownKind => "unknown project manifest type"
  | .notSolution => "not a solution file"

/-- **Why a manifest cannot be read.** -/
inductive Fault
  | refused (path : Path) (reason : Reason)
  | badPattern (fault : PatternFault)
  | nameTooLong (path : Path)
  | unknownEncoding
  | severalByteEncoding
  | failingCodec (name : String) (fault : Xml.CodecFault)
  | nullCharacter
  /-- Something of the system beyond the files: who may enter what, links that lead in a
  circle, a limit of the system or of the stack. -/
  | system (kind message : String)

/-- The wording of a fault. -/
def Fault.message : Fault → String
  | .refused path reason => "Cannot read manifest " ++ path.text ++ ": " ++ reason.text
  | .badPattern fault => fault.message
  | .nameTooLong path => (FileFault.mk path .nameTooLong).message
  | .unknownEncoding => Xml.Refusal.unknownEncoding.message
  | .severalByteEncoding => Xml.Refusal.severalByteEncoding.message
  | .failingCodec name fault => fault.message name
  | .nullCharacter => Trouble.nullCharacter.text
  | .system _ message => message

/-- The fault of a document in the file at a path. -/
def Fault.ofXml (path : Path) : Xml.Refusal → Fault
  | .malformed fault place => .refused path (.notXml fault place)
  | .unknownEncoding => .unknownEncoding
  | .severalByteEncoding => .severalByteEncoding
  | .failingCodec name fault => .failingCodec name fault

/-- The fault of a pattern in a manifest. -/
def Fault.ofMatch : MatchFault → Fault
  | .pattern fault => .badPattern fault
  | .nameTooLong path => .nameTooLong path

/-- **The root element of the document in a file.** -/
def readXml (f : Files) (path : Path) : Except Fault Xml.Element :=
  match f.read path with
  | .error fault => .error (.refused path (.file fault))
  | .ok content => (Xml.parse content.toList).mapError (.ofXml path)

/-- The absolute path of a manifest. -/
def resolve (f : Files) (path : Path) : Except Fault Path :=
  if path.names.any (·.toList.contains '\x00') then .error .nullCharacter
  else .ok (f.resolve path)

end SyntaxForest.Manifest
