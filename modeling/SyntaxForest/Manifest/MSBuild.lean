import SyntaxForest.Files.Discovery
import SyntaxForest.Manifest.Fault

/-!
# MSBuild projects

A project names its sources in items, by path or by pattern, and takes back
others. An SDK-style project also has every source below its directory without
naming it. What is taken back is gone wherever it came from; what is left keeps
the order of first mention: found sources first, then the items kind by kind,
each kind in document order.
-/

namespace SyntaxForest

namespace Xml.Element

/-- The elements of a name in a tree, in document order. -/
def named (root : Element) (name : String) : List Element :=
  root.elements.filter (·.name == name)

/-- The children of a name. -/
def childrenNamed (e : Element) (name : String) : List Element :=
  e.children.filter (·.name == name)

/-- The text of the first child of a name that has a text. -/
def childText? (e : Element) (name : String) : Option String :=
  ((e.childrenNamed name).map fun c => Text.trim c.text).find? (· != "")

/-- The value of an attribute, unless it is empty. -/
def filled? (e : Element) (name : String) : Option String :=
  match e.get? name with
  | some "" => none
  | value => value

end Xml.Element

namespace Manifest

/-- The name of a dependency with its version, if it has one. -/
def versioned (name : String) : Option String → String
  | some version => name ++ "@" ++ version
  | none => name

namespace MSBuild

/-- The suffixes of project files. -/
def suffixes : List String := [".csproj", ".vbproj", ".fsproj", ".proj"]

/-- The suffixes of sources that such projects have. -/
def sourceSuffixes : List String := [".cs", ".cshtml", ".razor"]

/-- The kinds of items that name sources, in the order in which they are read. -/
def itemKinds : List String := ["Compile", "Content", "None"]

/-! ## Sources -/

/-- **The parts of an item list**: what stands between semicolons, with
backslashes read as slashes. -/
def splitItems (value : String) : List String :=
  ((Text.split ";" value).map Text.trim).filter (· != "") |>.map (Text.replaceChar '\\' '/')

/-- The paths that one part of an item list names. A pattern names the files that
are there, any other part one path, whether or not something is there. -/
def expand (f : Files) (directory : Path) (item : String) : Except Fault (List Path) :=
  if PathPiece.isPattern item then (f.matching directory item).mapError .ofMatch
  else .ok [directory.join (.ofText item)]

/-- The paths that an item names under `Include` or `Remove`. -/
def itemPaths (f : Files) (directory : Path) (item : Xml.Element) (key : String) :
    Except Fault (List Path) :=
  ((splitItems ((item.get? key).getD "")).mapM (expand f directory)).map List.flatten

/-- What the items of a project say: the paths that are taken back, resolved,
and those that are added. -/
structure Items where
  removed : List Path := []
  included : List Path := []

/-- What an item adds to what others say. -/
def Items.add (f : Files) (directory : Path) (extensions : List String) (items : Items)
    (item : Xml.Element) : Except Fault Items := do
  let removed ← itemPaths f directory item "Remove"
  let included ← itemPaths f directory item "Include"
  return ⟨items.removed ++ removed.map f.resolve,
    items.included ++ included.filter fun p => extensions.contains (Text.lower p.suffix)⟩

/-- What all items of a project say. -/
def itemsOf (f : Files) (directory : Path) (extensions : List String) (root : Xml.Element) :
    Except Fault Items :=
  (itemKinds.flatMap root.named).foldlM (Items.add f directory extensions) {}

/-- Whether a project is of the style that has sources without naming them. -/
def isSdkStyle (root : Xml.Element) : Bool :=
  (root.filled? "Sdk").isSome || !(root.childrenNamed "Sdk").isEmpty

/-- The first mention of each of some paths, resolved, but for those removed. -/
def remaining (f : Files) (removed mentioned : List Path) : List Path :=
  mentioned.foldl (fun kept p =>
    let p := f.resolve p
    if removed.contains p || kept.contains p then kept else kept ++ [p]) []

/-- **The sources of a project.** -/
def sources (f : Files) (directory : Path) (supported excluded : List String)
    (root : Xml.Element) : Except Fault (List Path) :=
  let extensions := sourceSuffixes.filter supported.contains
  let found := if isSdkStyle root then f.discover directory extensions excluded else []
  (itemsOf f directory extensions root).map fun items =>
    remaining f items.removed (found ++ items.included)

/-! ## Dependencies -/

/-- A package that a project refers to. -/
def package? (reference : Xml.Element) : Option String :=
  (reference.filled? "Include" <|> reference.filled? "Update").map fun name =>
    versioned name (reference.filled? "Version" <|> reference.childText? "Version")

/-- Another project that a project refers to, by its file's stem. -/
def project? (reference : Xml.Element) : Option String :=
  (reference.filled? "Include").map fun path =>
    "project:" ++ (Path.ofText (Text.replaceChar '\\' '/' path)).stem

/-- An assembly that a project refers to, without the details of its name. -/
def assembly? (reference : Xml.Element) : Option String :=
  (reference.filled? "Include").map fun name =>
    "assembly:" ++ Text.trim (Text.beforeFirst ',' name)

/-- **What a project depends on**: packages, projects, assemblies. -/
def dependencies (root : Xml.Element) : List String :=
  (root.named "PackageReference").filterMap package?
    ++ (root.named "ProjectReference").filterMap project?
    ++ (root.named "Reference").filterMap assembly?

end MSBuild

end Manifest

end SyntaxForest
