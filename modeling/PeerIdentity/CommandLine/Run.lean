import PeerIdentity.CommandLine.Command
import PeerIdentity.Files.Tree
import PeerIdentity.Keypair
import PeerIdentity.Record

/-!
# Running commands

A command works on a file system and draws random bytes. It reports in a log, and it either has
output or stops at an error.

* `Command.run`: a command on any file system;
* `CommandLine.run`: a command line, with its exit code, its output and its log as text;
* `CommandLine.runOn`: a command line on a file tree.
-/

namespace PeerIdentity

/-- Why a command stops. -/
inductive CommandError where
  | file (e : FileError)
  | identity (e : IdentityError)
  | engine (fault : EngineFault)
  deriving DecidableEq, Repr

/-- The message of the log when a command stops, or the fault that nothing catches: that of an
engine where the operating system has not failed. -/
def CommandError.message : CommandError → Except EngineFault String
  | file e => .ok s!"Cannot access key file: {e.message}"
  | identity e => .ok e.message
  | engine fault =>
    if fault.kind = .system then .ok s!"Cannot access key file: {fault.text}" else .error fault

/-- A command on a file system in a monad `m`: it adds to the log, and may stop. -/
abbrev CommandM (m : Type → Type) :=
  ExceptT CommandError (StateT (List LogLine) m)

namespace Command

variable {m : Type → Type} [Monad m]

/-! ## Steps -/

/-- Adds a line to the log. -/
def report (level : LogLevel) (source : LogSource) (message : String) : CommandM m Unit :=
  modify (· ++ [⟨level, source, message⟩])

/-- An operation on files, at whose refusal the command stops. -/
def onFiles {α : Type} (operation : m (Except FileError α)) : CommandM m α := do
  match ← (operation : m _) with
  | .ok a => return a
  | .error e => throw (.file e)

/-- A result, at whose failure the command stops. -/
def orFail {α : Type} : Except Failure α → CommandM m α
  | .ok a => return a
  | .error (.identity e) => throw (.identity e)
  | .error (.engine fault) => throw (.engine fault)

/-- A decoded key. The refusal of a key of known type is reported before the command stops. -/
def decoded {α : Type} (source : LogSource) (noun : String) :
    Except IdentityError α → CommandM m α
  | .ok a => return a
  | .error (.decoding (some t) detail) => do
    report .debug source s!"Rejected {t.name} {noun}: {detail}"
    throw (.identity (.decoding (some t) detail))
  | .error e => throw (.identity e)

variable (fs : FileSystem m)

/-- The keypair in a file. -/
def loadKeypair (path : Path) : CommandM m Keypair := do
  decoded .keypair "keypair" (Keypair.decode (← onFiles (fs.read path)))

/-- The public key in a file. -/
def loadPublicKey (path : Path) : CommandM m PublicKey := do
  decoded .publicKey "public key" (PublicKey.decode (← onFiles (fs.read path)))

/-- Writes a secret to a file that only its owner may read, in the place of a file that is there. -/
def writeSecret (path : Path) (contents : Bytes) : CommandM m Unit := do
  -- A file that is there may be open to others, so a new one takes its place.
  onFiles (fs.removeIfThere path)
  onFiles (fs.createPrivate path)
  onFiles (fs.write path contents)

/-! ## Commands -/

/-- The record of a public key as it is shown. -/
def showRecord (k : PublicKey) : String :=
  (IdentityRecord.ofPublicKey k).renderPretty IdentityRecord.Field.aliasName

/-- Writes a fresh keypair to a file. -/
def runGenerate (config : Config) (randomness : Randomness) (t : KeyType) (output : Path) :
    CommandM m String := do
  let k ← orFail (Keypair.generate config t randomness)
  report .debug .keypair s!"Generated {t.name} keypair"
  onFiles (fs.makeDirectories output.parent)
  writeSecret fs output k.encode
  report .info .commandLine s!"Wrote {t.name} keypair to {output.toString}"
  return k.peerId.toBase58

/-- The output of a command, without the end of its last line. -/
def run (config : Config) (randomness : Randomness) : Command → CommandM m String
  | .generate t output => runGenerate fs config randomness t output
  | .inspect path true => do
    return showRecord (← loadPublicKey fs path)
  | .inspect path false => do
    return showRecord (← loadKeypair fs path).publicKey
  | .peerId path asCid => do
    let p := (← loadKeypair fs path).peerId
    return if asCid then p.toCid else p.toBase58
  | .toHex path => do
    return Bytes.hex (← loadKeypair fs path).rawBytes

end Command

/-! ## Command lines -/

/-- What a command line leaves on the terminal. -/
structure Outcome where
  /-- The exit code. -/
  exit : Nat
  /-- The output. -/
  stdout : String
  /-- The log, unless the command line was not run. -/
  stderr : Option String
  /-- The fault of an engine that ended the program because nothing caught it. -/
  uncaught : Option EngineFault := none
  deriving DecidableEq, Repr

namespace CommandLine

/-- What is shown in the place of a command. -/
def showUsage : Usage → Outcome
  | .help text => { exit := 0, stdout := text, stderr := none }
  | .error => { exit := 2, stdout := "", stderr := none }

/-- What a command that has stopped at an error leaves on the terminal. -/
def fail (style : LogStyle) (log : List LogLine) (e : CommandError) : Outcome :=
  match e.message with
  | .ok message =>
    let log := log ++ [⟨.error, .commandLine, message⟩]
    { exit := 1, stdout := "", stderr := some (style.render log) }
  | .error fault =>
    { exit := 1, stdout := "", stderr := some (style.render log), uncaught := some fault }

/-- What a command that has ended leaves on the terminal. -/
def finish (style : LogStyle) : Except CommandError String × List LogLine → Outcome
  | (.ok output, log) =>
    { exit := 0, stdout := output ++ "\n", stderr := some (style.render log) }
  | (.error e, log) => fail style log e

/-- Runs a command line. -/
def run {m : Type → Type} [Monad m] (fs : FileSystem m) (config : Config)
    (randomness : Randomness) (args : List String) : m Outcome :=
  match Command.parse args with
  | .error usage => return showUsage usage
  | .ok (style, command) => do
    return finish style (← ((command.run fs config randomness).run).run [])

/-- Runs a command line on a file tree. -/
def runOn (tree : FileTree) (config : Config) (randomness : Randomness) (args : List String) :
    Outcome × FileTree :=
  (run FileTree.system config randomness args).run tree

end CommandLine

end PeerIdentity
