import SyntaxForest.Text.Split

/-!
# Paths

A path is a root, which is empty for a relative path, and the names that lead
from it. Slashes side by side count as one and a dot for nothing, but two dots
are a name like any other: only resolving a path takes a step back for them. A
root of exactly two slashes is kept apart from the ordinary root.
-/

namespace SyntaxForest

/-- **A path.** -/
structure Path where
  /-- Nothing, one slash or two. -/
  root : String
  names : List String
  deriving DecidableEq, Repr, Inhabited

namespace Path

/-- The names in a text between slashes. -/
def namesOf (s : String) : List String :=
  (Text.split "/" s).filter fun n => n != "" && n != "."

/-- **The path that a text writes.** -/
def ofText (s : String) : Path :=
  let slashes := (s.toList.takeWhile (· == '/')).length
  let root := if slashes = 0 then "" else if slashes = 2 then "//" else "/"
  ⟨root, namesOf s⟩

/-- **The text of a path**; the empty relative path is a dot. -/
def text (p : Path) : String :=
  if p.root = "" ∧ p.names.isEmpty then "." else p.root ++ Text.join "/" p.names

/-- Whether a path starts at a root. -/
def isAbsolute (p : Path) : Bool := p.root != ""

/-- The last name of a path. -/
def name (p : Path) : String := p.names.getLast?.getD ""

/-- The part of a name from its last dot on. A dot in front or at the end is part
of the name. -/
def suffixOf (name : String) : String :=
  let after := Text.afterLast '.' name
  let before := name.length - after.length
  if 1 < before ∧ after ≠ "" then "." ++ after else ""

/-- The suffix of the last name. -/
def suffix (p : Path) : String := suffixOf p.name

/-- The last name without its suffix. -/
def stem (p : Path) : String :=
  let n := p.name
  String.ofList (n.toList.take (n.length - (suffixOf n).length))

/-- The path without its last name. -/
def parent (p : Path) : Path := { p with names := p.names.dropLast }

/-- **A path seen from another**: an absolute one is itself. -/
def join (p q : Path) : Path := if q.isAbsolute then q else { p with names := p.names ++ q.names }

/-- Names with every step back taken. -/
def takeSteps (names : List String) : List String :=
  (names.foldl (fun taken n => if n = ".." then taken.tail else n :: taken) []).reverse

/-- **The absolute path of a path** seen from the directory `here`, where no link
leads elsewhere. -/
def resolve (here p : Path) : Path := ⟨"/", takeSteps (here.join p).names⟩

/-- The names of a path below another, if it lies there. -/
def below? (p directory : Path) : Option (List String) :=
  if p.root = directory.root ∧ directory.names.isPrefixOf p.names then
    some (p.names.drop directory.names.length)
  else none

end Path

end SyntaxForest
