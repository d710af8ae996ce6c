import PeerIdentity.Multihash
import PeerIdentity.Text.Base32
import PeerIdentity.Text.Base58
import PeerIdentity.Text.Quoted
import PeerIdentity.Text.Uppercase

/-!
# Peer identifiers

A peer identifier is the multihash of an encoded public key. It has two text forms: the multihash in
base 58, and a content identifier of version 1 for peer keys, in base 32 after the letter `b`.

* `PeerId.toBase58`, `PeerId.toCid`: the text forms;
* `PeerId.ofBytes`, `PeerId.ofBase58`, `PeerId.ofCid`: read each form;
* `PeerId.ofText`: reads either text form.
-/

namespace PeerIdentity

/-- A peer identifier, as the bytes of its multihash. -/
structure PeerId where
  /-- The form of the multihash. -/
  multihash : Bytes
  deriving DecidableEq, Repr

namespace PeerId

/-! ## Writing -/

/-- The version of the content identifiers. -/
def cidVersion : Nat :=
  1

/-- The number that stands for peer keys in content identifiers. -/
def keyCodec : Nat :=
  0x72

/-- The multihash in base 58. -/
def toBase58 (p : PeerId) : String :=
  Base58.encode p.multihash

/-- The bytes of the content identifier. -/
def cidBytes (p : PeerId) : Bytes :=
  Varint.encode cidVersion ++ Varint.encode keyCodec ++ p.multihash

/-- The content identifier in base 32. -/
def toCid (p : PeerId) : String :=
  String.ofList ('b' :: Base32.encode p.cidBytes)

/-- The identifier as it is shown in messages. -/
def describe (p : PeerId) : String :=
  s!"PeerId({p.toBase58})"

/-- The hash function of the multihash. -/
def hashCode (p : PeerId) : Except IdentityError HashCode :=
  (Multihash.decode p.multihash).map (·.code)

/-! ## Reading -/

/-- Why bytes or a text are no peer identifier. -/
inductive Fault where
  | multihash (fault : Multihash.Fault)
  /-- The embedded data is too long. -/
  | inlineLength (length : Nat)
  /-- A character is no base-58 digit. -/
  | base58 (c : Char)
  /-- A content identifier starts with another letter than `b`, or is empty. -/
  | multibase (first : Option Char)
  | base32 (fault : Base32.Fault)
  | cid (fault : Varint.Fault)
  | cidVersion (version : Nat)
  | cidCodec (codec : Nat)
  deriving DecidableEq, Repr

/-- The message for bytes or a text that are no peer identifier. -/
def Fault.message : Fault → String
  | multihash fault => fault.message
  | inlineLength length =>
    s!"Identity multihash of {length} bytes exceeds {maxInlineLength}-byte inline limit"
  | base58 c => s!"Invalid Base58 character: {quoted c.toString}"
  | multibase first => s!"Unsupported multibase prefix {quoted (String.ofList first.toList)}"
  | base32 fault => s!"Invalid base32: {fault.message}"
  | cid fault => s!"Invalid CID: {fault.message}"
  | cidVersion version => s!"Unsupported CID version {version}"
  | cidCodec codec =>
    "CID codec 0x" ++ String.ofList (Nat.toDigits 16 codec) ++ " is not libp2p-key"

/-- Reads the bytes of a multihash. Embedded data has a limited length. -/
def readBytes (b : Bytes) : Except Fault PeerId :=
  match Multihash.read b with
  | .error fault => .error (.multihash fault)
  | .ok m =>
    if m.code = .identity ∧ maxInlineLength < m.digest.length then
      .error (.inlineLength m.digest.length)
    else .ok ⟨b⟩

/-- Reads a multihash in base 58. -/
def readBase58 (s : String) : Except Fault PeerId :=
  match Base58.decode s with
  | .error c => .error (.base58 c)
  | .ok b => readBytes b

/-- Reads the bytes of a content identifier. -/
def readCidBytes (b : Bytes) : Except Fault PeerId :=
  match Varint.read b with
  | .error fault => .error (.cid fault)
  | .ok (version, b) =>
    match Varint.read b with
    | .error fault => .error (.cid fault)
    | .ok (codec, b) =>
      -- Both numbers are read before either is compared.
      if version ≠ PeerId.cidVersion then .error (.cidVersion version)
      else if codec ≠ keyCodec then .error (.cidCodec codec)
      else readBytes b

/-- Reads a content identifier in base 32, after the letter `b` and in either case. -/
def readCid (s : String) : Except Fault PeerId :=
  match s.toList with
  | 'b' :: body =>
    match Base32.decode (upperAscii body) with
    | .error fault => .error (.base32 fault)
    | .ok b => readCidBytes b
  | other => .error (.multibase other.head?)

/-- Whether a text is read in base 58: it starts with `1` or `Qm`. -/
def looksBase58 : List Char → Bool
  | '1' :: _ => true
  | 'Q' :: 'm' :: _ => true
  | _ => false

/-- Reads either text form. -/
def readText (s : String) : Except Fault PeerId :=
  if looksBase58 s.toList then readBase58 s else readCid s

/-- The error for bytes or a text that are no peer identifier. -/
def Fault.toError (fault : Fault) : IdentityError :=
  .parse fault.message

/-- The peer identifier of a multihash. -/
def ofBytes (b : Bytes) : Except IdentityError PeerId :=
  (readBytes b).mapError Fault.toError

/-- The peer identifier that a text writes in base 58. -/
def ofBase58 (s : String) : Except IdentityError PeerId :=
  (readBase58 s).mapError Fault.toError

/-- The peer identifier that a text writes as a content identifier. -/
def ofCid (s : String) : Except IdentityError PeerId :=
  (readCid s).mapError Fault.toError

/-- The peer identifier that a text writes in either form. -/
def ofText (s : String) : Except IdentityError PeerId :=
  (readText s).mapError Fault.toError

end PeerId

end PeerIdentity
