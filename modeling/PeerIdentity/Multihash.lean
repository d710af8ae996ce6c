import PeerIdentity.Error
import PeerIdentity.Hash.Sha2
import PeerIdentity.Varint

/-!
# Multihashes

A digest with the number of its hash function: the number and the length of the digest, as
variable-length integers, and the digest. Two functions are known, SHA-256 and the identity, whose
digest is the data itself.

* `Multihash.encode`, `Multihash.decode`: the form of a multihash;
* `Multihash.ofData`: data itself when it is short, its SHA-256 digest otherwise.
-/

namespace PeerIdentity

/-- A hash function. -/
inductive HashCode where
  | identity
  | sha256
  deriving DecidableEq, Repr

namespace HashCode

/-- The number of a hash function. -/
def code : HashCode → Nat
  | identity => 0x00
  | sha256 => 0x12

/-- The hash function of a number. -/
def ofCode? (code : Nat) : Option HashCode :=
  if code = 0x00 then some identity else if code = 0x12 then some sha256 else none

/-- The name of a hash function. -/
def name : HashCode → String
  | identity => "IDENTITY"
  | sha256 => "SHA256"

end HashCode

/-- A digest with its hash function. -/
structure Multihash where
  /-- The hash function. -/
  code : HashCode
  /-- The digest, which is the data itself for the identity. -/
  digest : Bytes
  deriving DecidableEq, Repr

/-- The largest number of bytes of an encoded public key that a peer identifier embeds. -/
def maxInlineLength : Nat :=
  42

namespace Multihash

/-- The form of a multihash. -/
def encode (m : Multihash) : Bytes :=
  Varint.encode m.code.code ++ Varint.encode m.digest.length ++ m.digest

/-- Why bytes are no multihash. -/
inductive Fault where
  | varint (fault : Varint.Fault)
  /-- The length is not that of the digest. -/
  | lengthMismatch (declared found : Nat)
  | unsupportedCode (code : Nat)
  | digestLength (length : Nat)
  deriving DecidableEq, Repr

/-- The message for bytes that are no multihash. -/
def Fault.message : Fault → String
  | varint fault => s!"Invalid multihash: {fault.message}"
  | lengthMismatch declared found =>
    s!"Multihash declares {declared} digest bytes, found {found}"
  | unsupportedCode code => "Unsupported multihash code 0x" ++ String.ofList (Nat.toDigits 16 code)
  | digestLength length => s!"sha2-256 digest must be 32 bytes, got {length}"

/-- The multihash that is all of a byte string. -/
def read (b : Bytes) : Except Fault Multihash :=
  match Varint.read b with
  | .error fault => .error (.varint fault)
  | .ok (code, b) =>
    match Varint.read b with
    | .error fault => .error (.varint fault)
    | .ok (length, digest) =>
      -- The length is compared before the function is looked up.
      if digest.length ≠ length then .error (.lengthMismatch length digest.length)
      else
        match HashCode.ofCode? code with
        | none => .error (.unsupportedCode code)
        | some .identity => .ok ⟨.identity, digest⟩
        | some .sha256 =>
          if length ≠ 32 then .error (.digestLength length) else .ok ⟨.sha256, digest⟩

/-- The multihash that is all of a byte string. -/
def decode (b : Bytes) : Except IdentityError Multihash :=
  (read b).mapError fun fault => .parse fault.message

/-- Data as its own digest. -/
def identity (data : Bytes) : Multihash :=
  ⟨.identity, data⟩

/-- The SHA-256 digest of data. -/
def sha256 (data : Bytes) : Multihash :=
  ⟨.sha256, PeerIdentity.sha256 data⟩

/-- The multihash of an encoded public key. -/
def ofData (data : Bytes) : Multihash :=
  if data.length ≤ maxInlineLength then identity data else sha256 data

end Multihash

end PeerIdentity
