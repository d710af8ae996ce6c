import PeerIdentity.CommandLine.Arguments
import PeerIdentity.CommandLine.Log
import PeerIdentity.Files.Path
import PeerIdentity.KeyType

/-!
# Commands

The command line names a command, with options for the whole program before it and with operands and
options of its own after it.

* `Command`: what is to be done;
* `Command.parse`: the command of a command line, or what is shown in its place.
-/

namespace PeerIdentity

/-- What is to be done. -/
inductive Command where
  /-- Writes a fresh keypair to a file. -/
  | generate (keyType : KeyType) (output : Path)
  /-- Shows the record of a keypair or of a public key in a file. -/
  | inspect (path : Path) (isPublic : Bool)
  /-- Shows the peer identifier of a keypair in a file. -/
  | peerId (path : Path) (asCid : Bool)
  /-- Shows the encoding of a keypair in a file. -/
  | toHex (path : Path)
  deriving DecidableEq, Repr

/-- What is shown in the place of a command's output. -/
inductive Usage where
  /-- The help that is asked for. -/
  | help (text : String)
  /-- The command line is not understood. -/
  | error
  deriving DecidableEq, Repr

namespace Command

/-! ## Help -/

/-- The key types as a choice. -/
def keyTypeChoice : String :=
  "\x7b" ++ ",".intercalate (KeyType.all.map KeyType.lowerName) ++ "\x7d"

/-- Help on the whole program. -/
def programHelp : String :=
  "usage: libp2p-identity [-h] [-v] [--no-color]\n" ++
  "                       \x7bgenerate,inspect,peer-id,to-hex\x7d ...\n" ++
  "\n" ++
  "libp2p identity key tool\n" ++
  "\n" ++
  "positional arguments:\n" ++
  "  \x7bgenerate,inspect,peer-id,to-hex\x7d\n" ++
  "    generate            Generate a keypair file\n" ++
  "    inspect             Describe a key file as JSON\n" ++
  "    peer-id             Print the PeerId of a keypair file\n" ++
  "    to-hex              Print raw keypair bytes as hex\n" ++
  "\n" ++
  "options:\n" ++
  "  -h, --help            show this help message and exit\n" ++
  "  -v, --verbose         Enable debug logging\n" ++
  "  --no-color            Disable colored logging output\n" ++
  "\n" ++
  "libp2p identity key tool.\n" ++
  "\n" ++
  "Create, inspect and convert protobuf-encoded libp2p keypairs.\n" ++
  "\n" ++
  "Usage::\n" ++
  "\n" ++
  "    python -m libp2p_identity_pqc generate --key-type dilithium --output node.key\n" ++
  "    python -m libp2p_identity_pqc inspect node.key\n" ++
  "    python -m libp2p_identity_pqc inspect node.pub --public\n" ++
  "    python -m libp2p_identity_pqc peer-id node.key --cid\n" ++
  "    python -m libp2p_identity_pqc to-hex node.key\n" ++
  "\n" ++
  "Commands:\n" ++
  "    generate   Write a fresh keypair (protobuf encoding, mode 0600) and print its PeerId\n" ++
  "    inspect    Print key type, PeerIds and public key of a keypair or public key file " ++
  "as JSON\n" ++
  "    peer-id    Print the PeerId of a keypair file\n" ++
  "    to-hex     Print the algorithm-level keypair bytes as hex\n"

/-- Help on the command that writes a keypair. -/
def generateHelp : String :=
  "usage: libp2p-identity generate [-h]\n" ++
  "                                [--key-type " ++ keyTypeChoice ++ "]\n" ++
  "                                --output OUTPUT\n" ++
  "\n" ++
  "options:\n" ++
  "  -h, --help            show this help message and exit\n" ++
  "  --key-type " ++ keyTypeChoice ++ "\n" ++
  "                        Signature algorithm (default: ed25519)\n" ++
  "  --output OUTPUT       Where to write the protobuf-encoded keypair\n"

/-- Help on a command that reads a file, with at most one option of its own. -/
def fileHelp (command option pathHelp optionHelp : String) : String :=
  s!"usage: libp2p-identity {command} [-h] {option}path\n" ++
  "\n" ++
  "positional arguments:\n" ++
  s!"  path        {pathHelp}\n" ++
  "\n" ++
  "options:\n" ++
  "  -h, --help  show this help message and exit\n" ++
  optionHelp

/-- Help on the command that shows a record. -/
def inspectHelp : String :=
  fileHelp "inspect" "[--public] " "Protobuf-encoded key file"
    "  --public    The file holds a public key instead of a keypair\n"

/-- Help on the command that shows a peer identifier. -/
def peerIdHelp : String :=
  fileHelp "peer-id" "[--cid] " "Protobuf-encoded keypair file"
    "  --cid       Print the CIDv1 (base32) form instead of Base58\n"

/-- Help on the command that shows an encoding. -/
def toHexHelp : String :=
  fileHelp "to-hex" "" "Protobuf-encoded keypair file" ""

/-! ## Settings -/

/-- The option that asks for help. -/
def helpOption : CommandOption :=
  { long := "help", short := some 'h' }

/-- What the arguments of a command set. -/
structure Settings where
  operands : List String := []
  flags : List String := []
  values : List (String × String) := []
  /-- Whether an option is not known. -/
  hasUnknown : Bool := false

/-- Adds what one argument sets. Help and errors show in place of the command. -/
def Settings.apply (help : String) (accepts : String → String → Bool) (s : Settings) :
    Argument → Except Usage Settings
  | .operand text => .ok { s with operands := s.operands ++ [text] }
  | .flag "help" => .error (.help help)
  | .flag option => .ok { s with flags := option :: s.flags }
  | .valued option value =>
    if accepts option value then .ok { s with values := (option, value) :: s.values }
    else .error .error
  | .unknown => .ok { s with hasUnknown := true }
  | .invalid => .error .error

/-- What the arguments of a command set, in order. -/
def settings (options : List CommandOption) (help : String) (accepts : String → String → Bool)
    (args : List String) : Except Usage Settings :=
  (Argument.list (helpOption :: options) args).foldlM (Settings.apply help accepts) {}

/-- Whether a flag is set. -/
def Settings.has (s : Settings) (flag : String) : Bool :=
  s.flags.contains flag

/-- The one path among the operands of a command that knows all its options. -/
def Settings.path? (s : Settings) : Except Usage Path :=
  match s.operands, s.hasUnknown with
  | [text], false => .ok (Path.ofString text)
  | _, _ => .error .error

/-! ## Commands -/

/-- The options of the command that writes a keypair. -/
def generateOptions : List CommandOption :=
  [{ long := "key-type", takesValue := true }, { long := "output", takesValue := true }]

/-- The key type that a lower-case name gives. -/
def choice? (name : String) : Option KeyType :=
  KeyType.all.find? fun t => t.lowerName = name

/-- Reads the arguments of the command that writes a keypair. -/
def parseGenerate (args : List String) : Except Usage Command := do
  let accepts := fun option value => option ≠ "key-type" || (choice? value).isSome
  let s ← settings generateOptions generateHelp accepts args
  let keyType := ((s.values.lookup "key-type").bind choice?).getD .ed25519
  match s.values.lookup "output", s.operands, s.hasUnknown with
  | some output, [], false => .ok (.generate keyType (Path.ofString output))
  | _, _, _ => .error .error

/-- Reads the arguments of a command that reads a file. -/
def parseFile (options : List CommandOption) (help : String) (make : Path → Settings → Command)
    (args : List String) : Except Usage Command := do
  let s ← settings options help (fun _ _ => true) args
  return make (← s.path?) s

/-- Reads the arguments of the command of a given name. -/
def parseNamed (name : String) (args : List String) : Except Usage Command :=
  match name with
  | "generate" => parseGenerate args
  | "inspect" =>
    parseFile [{ long := "public" }] inspectHelp (fun p s => .inspect p (s.has "public")) args
  | "peer-id" => parseFile [{ long := "cid" }] peerIdHelp (fun p s => .peerId p (s.has "cid")) args
  | "to-hex" => parseFile [] toHexHelp (fun p _ => .toHex p) args
  | _ => .error .error

/-- The options of the whole program. -/
def programOptions : List CommandOption :=
  [helpOption, { long := "verbose", short := some 'v' }, { long := "no-color" }]

/-- The style of the log that the options of the whole program set. -/
def styleOf (s : Settings) : LogStyle :=
  { verbose := s.has "verbose", colored := !s.has "no-color" }

/-- Reads options of the whole program up to the name of a command, and the command. -/
def parseFrom (s : Settings) : List String → Except Usage (LogStyle × Command)
  | [] => .error .error
  | arg :: args =>
    if arg = "--" then .error .error
    else
      match Argument.read programOptions arg.toList with
      | .needsValue _ => .error .error
      -- The first operand names the command, and the arguments after it are the command's.
      | .arguments [.operand name] => do
        let command ← parseNamed name args
        if s.hasUnknown then .error .error else .ok (styleOf s, command)
      | .arguments list => do
        parseFrom (← list.foldlM (Settings.apply programHelp fun _ _ => true) s) args

/-- The command of a command line, with the style of its log. -/
def parse (args : List String) : Except Usage (LogStyle × Command) :=
  parseFrom {} args

end Command

end PeerIdentity
