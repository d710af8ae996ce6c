import PeerIdentity.Files.System

/-!
# File trees

A file system in memory: directories and files below a root, each file with its contents and its
mode, and a working directory, from which the paths without a root start.

* `FileTree`: the directories and files;
* `FileTree.resolve`: the place that a path leads to;
* `FileTree.system`: the operations of a file system on a tree that is state.
-/

namespace PeerIdentity

/-- What stands at a place of a tree. -/
inductive FileNode where
  | directory
  | file (contents : Bytes) (mode : Nat)
  deriving DecidableEq, Repr

/-- Directories and files by their places, which are the components of the way from the root. -/
structure FileTree where
  /-- What stands at the places other than the root. -/
  nodes : List (List String × FileNode)
  /-- The place of the working directory. -/
  workingDirectory : List String := []
  deriving DecidableEq, Repr

namespace FileTree

/-- The tree without files, in which the root is the working directory. -/
def empty : FileTree where
  nodes := []

/-- What stands at a place. The root stands at the empty place. -/
def get? (t : FileTree) (place : List String) : Option FileNode :=
  if place = [] then some .directory else t.nodes.lookup place

/-- Puts something at a place. -/
def set (t : FileTree) (place : List String) (node : FileNode) : FileTree :=
  { t with nodes := (place, node) :: t.nodes.filter (·.1 ≠ place) }

/-- Takes away what stands at a place. -/
def erase (t : FileTree) (place : List String) : FileTree :=
  { t with nodes := t.nodes.filter (·.1 ≠ place) }

/-- Puts a file with its directories at a place. -/
def addFile (t : FileTree) (place : List String) (contents : Bytes) (mode : Nat) : FileTree :=
  let above := (List.range place.length).map place.take
  let withDirectories := above.foldl (fun t p => if p = [] then t else t.set p .directory) t
  withDirectories.set place (.file contents mode)

/-- The files with their places. -/
def files (t : FileTree) : List (List String × Bytes × Nat) :=
  t.nodes.filterMap fun (place, node) =>
    match node with
    | .directory => none
    | .file contents mode => some (place, contents, mode)

/-! ## Paths -/

/-- The largest number of bytes of a component. -/
def maxNameLength : Nat :=
  255

/-- The place that components lead to from a place. All of them but the last must lead to
directories, and `..` leads back, from the root to the root. -/
def walk (t : FileTree) : (place : List String) → (parts : List String) →
    Except FileFault (List String)
  | place, [] => .ok place
  | place, part :: parts =>
    match t.get? place with
    | none => .error .notFound
    | some (.file ..) => .error .notDirectory
    | some .directory =>
      if maxNameLength < part.utf8ByteSize then .error .nameTooLong
      else if part = ".." then walk t place.dropLast parts
      else walk t (place ++ [part]) parts

/-- The place where a path starts: the working directory, or the root. -/
def start (t : FileTree) (p : Path) : List String :=
  if p.root = "" then t.workingDirectory else []

/-- The place that a path leads to, where something may stand or not. -/
def resolve (t : FileTree) (p : Path) : Except FileFault (List String) :=
  t.walk (t.start p) p.parts

/-! ## Operations -/

/-- The contents of a file. -/
def read (t : FileTree) (p : Path) : Except FileFault Bytes :=
  match t.resolve p with
  | .error fault => .error fault
  | .ok place =>
    match t.get? place with
    | none => .error .notFound
    | some .directory => .error .isDirectory
    | some (.file contents _) => .ok contents

/-- Whether a path leads to a directory. -/
def isDirectory (t : FileTree) (p : Path) : Bool :=
  match t.resolve p with
  | .error _ => false
  | .ok place => t.get? place = some .directory

/-- Puts something at the end of a path where nothing stands. -/
def insertNew (t : FileTree) (p : Path) (node : FileNode) : Except FileFault FileTree :=
  match t.resolve p with
  | .error fault => .error fault
  | .ok place => if (t.get? place).isSome then .error .alreadyExists else .ok (t.set place node)

/-- Removes a file. -/
def remove (t : FileTree) (p : Path) : Except FileFault FileTree :=
  match t.resolve p with
  | .error fault => .error fault
  | .ok place =>
    match t.get? place with
    | none => .error .notFound
    | some .directory => .error .isDirectory
    | some (.file ..) => .ok (t.erase place)

/-- Writes the contents of a file that is there. -/
def write (t : FileTree) (p : Path) (contents : Bytes) : Except FileFault FileTree :=
  match t.resolve p with
  | .error fault => .error fault
  | .ok place =>
    match t.get? place with
    | none => .error .notFound
    | some .directory => .error .isDirectory
    | some (.file _ mode) => .ok (t.set place (.file contents mode))

/-- The mode of a file that only its owner may read and write. -/
def privateMode : Nat :=
  0o600

/-- An operation that changes the state or is refused. -/
def change (p : Path) (operation : FileTree → Except FileFault FileTree) :
    StateM FileTree (Except FileError Unit) := fun t =>
  match operation t with
  | .ok t => (.ok (), t)
  | .error fault => (.error ⟨fault, p⟩, t)

/-- A tree that is state, as a file system. -/
def system : FileSystem (StateM FileTree) where
  read p := fun t => ((t.read p).mapError (⟨·, p⟩), t)
  isDirectory p := fun t => (t.isDirectory p, t)
  makeDirectory p := change p fun t => t.insertNew p .directory
  remove p := change p fun t => t.remove p
  createPrivate p := change p fun t => t.insertNew p (.file [] privateMode)
  write p contents := change p fun t => t.write p contents

end FileTree

end PeerIdentity
