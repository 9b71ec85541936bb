import SyntaxForest.Files.Store
import SyntaxForest.Text.Case

/-!
# Finding sources

The files below a directory whose suffix is wanted, in the order of their
relative paths. Directories of certain names are left out with all that they
hold, at any depth below the first.
-/

namespace SyntaxForest

namespace Entry

mutual

/-- The ways to the files below an entry, with directories of excluded names left
out. -/
def filesBelow (excluded : List String) : Entry → List (List String)
  | .file _ => []
  | .directory es => filesIn excluded es

/-- The ways to the files in and below listed entries. -/
def filesIn (excluded : List String) : List (String × Entry) → List (List String)
  | [] => []
  | e :: rest => filesAt excluded e ++ filesIn excluded rest

/-- The ways to the files at and below a named entry. -/
def filesAt (excluded : List String) : String × Entry → List (List String)
  | (name, .file _) => [[name]]
  | (name, .directory es) =>
    if excluded.contains name then []
    else (filesIn excluded es).map (name :: ·)

end

end Entry

namespace Files

/-- The directories that sources are not looked for in, unless others are named. -/
def defaultExcluded : List String := ["bin", "obj", ".git", ".vs", "node_modules", "packages"]

/-- Whether a way leads to a file with a wanted suffix. -/
def isWanted (extensions : List String) (way : List String) : Bool :=
  (extensions.map Text.lower).contains
    (Text.lower (Path.suffixOf (way.getLast?.getD "")))

/-- **The sources below a directory**, in the order of their relative paths. -/
def discover (f : Files) (directory : Path) (extensions excluded : List String) : List Path :=
  match f.find? directory with
  | .error _ => []
  | .ok e =>
    let ways := (e.filesBelow excluded).filter (isWanted extensions)
    let sorted := ways.mergeSort fun a b => !(Text.join "/" b < Text.join "/" a)
    sorted.map fun way => { directory with names := directory.names ++ way }

end Files

end SyntaxForest
