import PeerIdentity.CommandLine.Run

/-!
# The program

Runs a command line on the files of the machine, with random bytes of the operating system.

* `Disk.system`: the operations of a file system on the files of the machine;
* `main`: the program.
-/

namespace PeerIdentity

namespace Disk

/-- The number of an error, which some operations give with the opposite sign. -/
def errorNumber (n : UInt32) : Nat :=
  if n < 0x80000000 then n.toNat else (-n).toNat

/-- The refusal that an error of the operating system stands for. -/
def faultOf : IO.Error → FileFault
  | .noFileOrDirectory .. => .notFound
  | .alreadyExists _ number text | .inappropriateType _ number text
  | .invalidArgument _ number text | .permissionDenied _ number text
  | .resourceExhausted _ number text | .noSuchThing _ number text
  | .otherError number text => .ofNumber (errorNumber number) text
  | e => .other 5 e.toString

/-- An operation on a path, with errors as results. -/
def attempt {α : Type} (p : Path) (operation : IO α) : IO (Except FileError α) := do
  match ← operation.toBaseIO with
  | .ok a => return .ok a
  | .error e => return .error ⟨faultOf e, p⟩

/-- Whether a path leads to a directory: only a directory has an entry for itself. -/
def isDirectory (p : Path) : IO Bool := do
  match ← (IO.FS.Handle.mk (p.toString ++ "/.") .read).toBaseIO with
  | .ok _ => return true
  | .error _ => return false

/-- Removes what is not a directory. -/
def remove (p : Path) : IO (Except FileError Unit) := do
  if ← isDirectory p then return .error ⟨.isDirectory, p⟩
  attempt p (IO.FS.removeFile p.toString)

/-- The access rights of a file that only its owner may read and write. -/
def privateRights : IO.FileRight :=
  { user := { read := true, write := true } }

/-- Makes an empty file that only its owner may read and write, where there is none. -/
def createPrivate (p : Path) : IO Unit := do
  let _ ← IO.FS.Handle.mk p.toString .writeNew
  IO.setAccessRights p.toString privateRights

/-- The files of the machine. -/
def system : FileSystem IO where
  read p := attempt p (return (← IO.FS.readBinFile p.toString).toList)
  isDirectory := isDirectory
  makeDirectory p := attempt p (IO.FS.createDir p.toString)
  remove := remove
  createPrivate p := attempt p (createPrivate p)
  write p contents := attempt p (IO.FS.writeBinFile p.toString ⟨contents.toArray⟩)

end Disk

/-- Runs a command line, shows what it leaves on the terminal and returns its exit code. -/
def runCommandLine (config : Config) (args : List String) : IO UInt32 := do
  let entropy ← IO.getRandomBytes 32
  let outcome ← CommandLine.run Disk.system config (.ok entropy.toList) args
  (← IO.getStderr).putStr (outcome.stderr.getD "")
  if let some fault := outcome.uncaught then (← IO.getStderr).putStrLn fault.text
  (← IO.getStdout).putStr outcome.stdout
  return UInt32.ofNat outcome.exit

end PeerIdentity

/-- Runs the command line with the configuration that the environment sets. -/
def main (args : List String) : IO UInt32 := do
  match PeerIdentity.Config.load (← IO.getEnv PeerIdentity.Config.variableName) with
  | .ok config => PeerIdentity.runCommandLine config args
  | .error fault => do
    (← IO.getStderr).putStrLn fault.message
    return 1
