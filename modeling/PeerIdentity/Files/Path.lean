/-!
# Paths

A path is a list of components, from the root or from the working directory. Empty components and
`.` are dropped when a path is read.

* `Path.ofString`, `Path.toString`: the text of a path;
* `Path.parent`: the path without its last component.
-/

namespace PeerIdentity

/-- A path. -/
structure Path where
  /-- The text of the root, which is empty for a path from the working directory. -/
  root : String
  /-- The components. -/
  parts : List String
  deriving DecidableEq, Repr

namespace Path

/-- The root that a text starts with. Two slashes are a root of their own, three or more are one. -/
def rootOf : List Char → String
  | ['/', '/'] => "//"
  | '/' :: '/' :: c :: _ => if c = '/' then "/" else "//"
  | '/' :: _ => "/"
  | _ => ""

/-- Reads a path. -/
def ofString (s : String) : Path where
  root := rootOf s.toList
  parts := ((s.toList.splitOn '/').map String.ofList).filter fun part => part ≠ "" && part ≠ "."

/-- The text of a path, which is a point for the working directory. -/
def toString (p : Path) : String :=
  if p.root = "" ∧ p.parts = [] then "." else p.root ++ "/".intercalate p.parts

/-- The path without its last component. -/
def parent (p : Path) : Path :=
  { p with parts := p.parts.dropLast }

end Path

end PeerIdentity
