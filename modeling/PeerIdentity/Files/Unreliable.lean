import PeerIdentity.Files.Tree

/-!
# Unreliable file trees

A file tree that refuses operations which it would allow otherwise: the disk is full, or the system
has no more files to open. Which operations it refuses is said in advance, for every kind of
operation and every number of operations before it.

* `FileTree.Interruption`: a refusal;
* `FileTree.Interruptions`: the refusals of a run;
* `FileTree.unreliable`: the operations of a file system with these refusals.
-/

namespace PeerIdentity.FileTree

/-- The kinds of operations. -/
inductive Operation where
  | read
  | isDirectory
  | makeDirectory
  | remove
  | createPrivate
  | write
  deriving DecidableEq, Repr

/-- A refusal of an operation that the tree allows. -/
structure Interruption where
  fault : FileFault
  /-- The number of bytes that a refused write leaves. -/
  written : Nat := 0
  deriving DecidableEq, Repr

/-- The refusals of a run, for each kind of operation and each number of operations before it. -/
abbrev Interruptions :=
  Operation → Nat → Option Interruption

/-- A tree and the number of operations on it. -/
abbrev Counted :=
  FileTree × Nat

/-- An operation that may be refused. A refusal leaves behind what `leave` makes of the tree. -/
def attempt {α : Type} (plan : Interruptions) (kind : Operation) (refused : Interruption → α)
    (leave : Interruption → FileTree → FileTree) (operation : StateM FileTree α) :
    StateM Counted α := fun (t, count) =>
  match plan kind count with
  | some i => (refused i, (leave i t, count + 1))
  | none =>
    let (result, t) := operation t
    (result, (t, count + 1))

/-- An operation on a path that is refused without a trace. -/
def attemptOn {α : Type} (plan : Interruptions) (kind : Operation) (p : Path)
    (operation : StateM FileTree (Except FileError α)) : StateM Counted (Except FileError α) :=
  attempt plan kind (fun i => .error ⟨i.fault, p⟩) (fun _ t => t) operation

/-- The tree after a write that was refused when it had written a number of bytes. -/
def writeBeginning (t : FileTree) (p : Path) (contents : Bytes) (count : Nat) : FileTree :=
  (t.write p (contents.take count)).toOption.getD t

/-- A tree that refuses operations, as a file system. -/
def unreliable (plan : Interruptions) : FileSystem (StateM Counted) where
  read p := attemptOn plan .read p (system.read p)
  isDirectory p := attempt plan .isDirectory (fun _ => false) (fun _ t => t) (system.isDirectory p)
  makeDirectory p := attemptOn plan .makeDirectory p (system.makeDirectory p)
  remove p := attemptOn plan .remove p (system.remove p)
  createPrivate p := attemptOn plan .createPrivate p (system.createPrivate p)
  write p contents :=
    attempt plan .write (fun i => .error ⟨i.fault, p⟩)
      (fun i t => t.writeBeginning p contents i.written) (system.write p contents)

end PeerIdentity.FileTree
