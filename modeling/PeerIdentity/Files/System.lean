import PeerIdentity.Bytes
import PeerIdentity.Files.Path
import PeerIdentity.Text.Quoted

/-!
# File systems

What the command line asks of a file system, and how a file system refuses it.

* `FileFault`, `FileError`: the refusals, with their messages;
* `FileSystem`: the operations, in any monad;
* `FileSystem.makeDirectories`: makes a directory and the directories that lead to it.
-/

namespace PeerIdentity

/-- Why a file system refuses an operation. -/
inductive FileFault where
  | notFound
  | alreadyExists
  | notDirectory
  | isDirectory
  | noSpace
  | nameTooLong
  /-- A refusal that has no case of its own. -/
  | other (number : Nat) (text : String)
  deriving DecidableEq, Repr

namespace FileFault

/-- The number of a refusal. -/
def number : FileFault → Nat
  | notFound => 2
  | alreadyExists => 17
  | notDirectory => 20
  | isDirectory => 21
  | noSpace => 28
  | nameTooLong => 36
  | other number _ => number

/-- A refusal in words. -/
def text : FileFault → String
  | notFound => "No such file or directory"
  | alreadyExists => "File exists"
  | notDirectory => "Not a directory"
  | isDirectory => "Is a directory"
  | noSpace => "No space left on device"
  | nameTooLong => "File name too long"
  | other _ text => text

/-- The refusals that have cases of their own. -/
def known : List FileFault :=
  [notFound, alreadyExists, notDirectory, isDirectory, noSpace, nameTooLong]

/-- The refusal with a given number, in the given words if it has no case of its own. -/
def ofNumber (n : Nat) (text : String) : FileFault :=
  (known.find? fun fault => fault.number = n).getD (other n text)

end FileFault

/-- An operation on a path that is refused. -/
structure FileError where
  fault : FileFault
  path : Path
  deriving DecidableEq, Repr

/-- The message for an operation that is refused. -/
def FileError.message (e : FileError) : String :=
  s!"[Errno {e.fault.number}] {e.fault.text}: {quoted e.path.toString}"

/-- The operations of a file system. -/
structure FileSystem (m : Type → Type) where
  /-- The contents of a file. -/
  read : Path → m (Except FileError Bytes)
  /-- Whether a path leads to a directory. -/
  isDirectory : Path → m Bool
  /-- Makes a directory in a directory. -/
  makeDirectory : Path → m (Except FileError Unit)
  /-- Removes a file. -/
  remove : Path → m (Except FileError Unit)
  /-- Makes an empty file that only its owner may read and write, where there is none. -/
  createPrivate : Path → m (Except FileError Unit)
  /-- Writes the contents of a file. -/
  write : Path → Bytes → m (Except FileError Unit)

namespace FileSystem

variable {m : Type → Type} [Monad m] (fs : FileSystem m)

/-- Makes a directory unless it is there. -/
def ensureDirectory (p : Path) : m (Except FileError Unit) := do
  match ← fs.makeDirectory p with
  | .ok () => return .ok ()
  | .error e => return if ← fs.isDirectory p then .ok () else .error e

/-- Makes a directory whose path has `count` components, and first the directories that lead to it
where they are missing. -/
def makeDirectoriesTo : (count : Nat) → Path → m (Except FileError Unit)
  | 0, p => fs.ensureDirectory p
  | count + 1, p => do
    match ← fs.makeDirectory p with
    | .ok () => return .ok ()
    | .error e =>
      -- The directory above is missing, so it comes first.
      if e.fault = .notFound then
        match ← makeDirectoriesTo count p.parent with
        | .ok () => fs.ensureDirectory p
        | .error e => return .error e
      else return if ← fs.isDirectory p then .ok () else .error e

/-- Makes a directory and the directories that lead to it. -/
def makeDirectories (p : Path) : m (Except FileError Unit) :=
  fs.makeDirectoriesTo p.parts.length p

/-- Removes a file if it is there. -/
def removeIfThere (p : Path) : m (Except FileError Unit) := do
  match ← fs.remove p with
  | .ok () => return .ok ()
  | .error e => return if e.fault = .notFound then .ok () else .error e

end FileSystem

end PeerIdentity
