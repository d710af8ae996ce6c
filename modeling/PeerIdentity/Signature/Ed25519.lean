import PeerIdentity.Curve.Edwards
import PeerIdentity.Hash.Sha2

/-!
# Ed25519 signatures

* `Ed25519.derive`: the public key of a secret of 32 bytes;
* `Ed25519.sign`: the signature, a function of the secret and the message;
* `Ed25519.verify`: whether a signature belongs to a message. The equation is taken without the
  cofactor, and the commitment is compared as bytes, so it has one accepted form.
-/

namespace PeerIdentity.Ed25519

open Edwards (Point)

/-- The secret scalar: the first half of the hash with its three lowest bits and its highest bit
cleared and the bit below that set. -/
def secretScalar (secret : Bytes) : Nat :=
  Bytes.toNatLE ((sha512 secret).take 32) % (1 <<< 254) / 8 * 8 + 1 <<< 254

/-- The public key of a secret. -/
def derive (secret : Bytes) : Bytes :=
  (Point.mul (secretScalar secret) Point.base).encode

/-- The challenge of a commitment, a public key and a message. -/
def challenge (commitment publicKey message : Bytes) : Nat :=
  Bytes.toNatLE (sha512 (commitment ++ publicKey ++ message)) % Edwards.order

/-- The signature of a message under a secret with its public key. -/
def sign (secret publicKey message : Bytes) : Bytes :=
  let nonce := Bytes.toNatLE (sha512 ((sha512 secret).drop 32 ++ message)) % Edwards.order
  let commitment := (Point.mul nonce Point.base).encode
  let k := challenge commitment publicKey message
  commitment ++ Bytes.ofNatLE 32 ((nonce + k * secretScalar secret) % Edwards.order)

/-- Whether 64 bytes are a signature of a message: a commitment and a response below the order, such
that the response times the base point, less the challenge times the public point, is the
commitment. A public key that is no point has no signatures. -/
def verify (publicKey message signature : Bytes) : Bool :=
  let commitment := signature.take 32
  let response := Bytes.toNatLE (signature.drop 32)
  match Edwards.decode? publicKey with
  | none => false
  | some A =>
    if signature.length = 64 ∧ response < Edwards.order then
      let k := challenge commitment publicKey message
      ((Point.mul response Point.base).add (Point.mul k A.neg)).encode = commitment
    else false

/-- A public key has 32 bytes. -/
@[simp] theorem length_derive (secret : Bytes) : (derive secret).length = 32 := by
  simp [derive, Point.encode]

end PeerIdentity.Ed25519
