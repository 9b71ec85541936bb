import SyntaxForest.Journal
import SyntaxForest.Manifest.MSBuild

/-!
# Project manifests

What a project's manifest says: its name, its sources in order, and what it
depends on. The kind is told from the file's name, but only after the file has
been found to be a document.
-/

namespace SyntaxForest

/-! ## Maven projects

A Maven project names no sources: they are what lies below its source roots, or
below its directory if it has none of them. Its dependencies are those of its
own list, not of lists that manage versions.
-/

namespace Manifest.Maven

/-- The file that describes a project, in lower case. -/
def fileName : String := "pom.xml"

/-- The suffixes of sources that such projects have. -/
def sourceSuffixes : List String := [".java"]

/-- The directories that sources are in. -/
def sourceRoots : List String := ["src/main/java", "src/test/java"]

/-- **The sources of a project.** -/
def sources (f : Files) (directory : Path) (supported excluded : List String) : List Path :=
  let roots := (sourceRoots.map fun r => directory.join (.ofText r)).filter f.isDirectory
  let roots := if roots.isEmpty then [directory] else roots
  (roots.flatMap fun root =>
    f.discover root (sourceSuffixes.filter supported.contains) excluded).map f.resolve

/-- An artifact that a project depends on, if its group and name are given. -/
def artifact? (dependency : Xml.Element) : Option String := do
  let group ← dependency.childText? "groupId"
  let name ← dependency.childText? "artifactId"
  return versioned (group ++ ":" ++ name) (dependency.childText? "version")

/-- **What a project depends on.** -/
def dependencies (root : Xml.Element) : List String :=
  ((root.childrenNamed "dependencies").flatMap (·.childrenNamed "dependency")).filterMap artifact?

/-- The name of a project: its own, or its directory's. -/
def name (directory : Path) (root : Xml.Element) : String :=
  (root.childText? "artifactId").getD directory.name

end Manifest.Maven

/-! ## Manifests -/

/-- The kinds of projects. -/
inductive ProjectKind
  | msbuild
  | maven
  deriving DecidableEq, Repr

/-- The name of a kind. -/
def ProjectKind.text : ProjectKind → String
  | .msbuild => "msbuild"
  | .maven => "maven"

/-- **What a project consists of.** All paths are absolute. -/
structure ProjectManifest where
  path : Path
  name : String
  kind : ProjectKind
  files : List Path
  dependencies : List String
  deriving Repr

namespace Manifest

/-- Whether a path is that of a project, by its end. -/
def isProjectPath (path : String) : Bool :=
  (MSBuild.suffixes ++ [Maven.fileName]).any (Text.endsWith (Text.lower path))

/-- The kind of the project at a path. -/
def kind? (path : Path) : Option ProjectKind :=
  if Text.lower path.name = Maven.fileName then some .maven
  else if MSBuild.suffixes.contains (Text.lower path.suffix) then some .msbuild
  else none

/-- **Reading the manifest of a project.** Only sources of `supported` suffixes
are listed, and none from directories of `excluded` names unless it is named. -/
def readProject (f : Files) (supported excluded : List String) (path : Path) :
    Except Fault ProjectManifest := do
  let path ← resolve f path
  let root ← readXml f path
  let directory := path.parent
  let supported := supported.map Text.lower
  match kind? path with
  | none => .error (.refused path .unknownKind)
  | some .maven =>
    return {
      path, name := Maven.name directory root, kind := .maven
      files := Maven.sources f directory supported excluded
      dependencies := Maven.dependencies root }
  | some .msbuild =>
    let files ← MSBuild.sources f directory supported excluded root
    return {
      path, name := path.stem, kind := .msbuild, files
      dependencies := MSBuild.dependencies root }

end Manifest

/-- What is told of a manifest that has been read. -/
def ProjectManifest.entry (m : ProjectManifest) : Journal.Entry :=
  let subject := match m.kind with
    | .msbuild => m.path.name
    | .maven => m.path.text
  .debug "polyast.processing.manifests"
    ("Read " ++ subject ++ ": " ++ toString m.files.length ++ " files, "
      ++ toString m.dependencies.length ++ " dependencies")

end SyntaxForest
