import PeerIdentity.Hash.Shake
import PeerIdentity.Key.Fault
import PeerIdentity.Signature.Ed25519

/-!
# Ed25519 keys

A public key is encoded as its 32 bytes, and a keypair as the secret of 32 bytes and the public key.

* `Ed25519.PublicKey`, `Ed25519.Keypair`: the keys;
* `Ed25519.Keypair.ofSecret`: the keypair of a secret;
* `Ed25519.Keypair.decode`: reads a keypair whose halves belong together.
-/

namespace PeerIdentity.Ed25519

/-- The number of bytes of a public key. -/
def publicKeyLength : Nat :=
  32

/-- The number of bytes of a secret. -/
def secretLength : Nat :=
  32

/-- A public key: any 32 bytes. -/
structure PublicKey where
  bytes : Bytes
  length_bytes : bytes.length = publicKeyLength
  deriving DecidableEq

namespace PublicKey

/-- The bytes of the key. -/
def encode (k : PublicKey) : Bytes :=
  k.bytes

/-- The public key of 32 bytes. -/
def decode (b : Bytes) : Except KeyFault PublicKey :=
  if h : b.length = publicKeyLength then .ok ⟨b, h⟩ else .error (.length publicKeyLength b.length)

/-- Whether a signature belongs to a message. -/
def verify (k : PublicKey) (message signature : Bytes) : Bool :=
  Ed25519.verify k.bytes message signature

end PublicKey

/-- A keypair: a secret with the public key that is derived from it. -/
structure Keypair where
  /-- The secret. -/
  secret : Bytes
  /-- The public half. -/
  publicKey : PublicKey
  length_secret : secret.length = secretLength
  derived : publicKey.bytes = derive secret

namespace Keypair

/-- The keypair of a secret of 32 bytes. -/
def ofSecret (secret : Bytes) : Except KeyFault Keypair :=
  if h : secret.length = secretLength then
    .ok ⟨secret, ⟨derive secret, length_derive secret⟩, h, rfl⟩
  else .error (.secretLength secretLength secret.length)

/-- The secret and the public key. -/
def encode (k : Keypair) : Bytes :=
  k.secret ++ k.publicKey.bytes

/-- Reads a secret and its public key. -/
def decode (b : Bytes) : Except KeyFault Keypair :=
  if b.length = secretLength + publicKeyLength then
    match ofSecret (b.take secretLength) with
    | .error fault => .error fault
    | .ok k =>
      if k.publicKey.bytes = b.drop secretLength then .ok k else .error .publicMismatch
  else .error (.length (secretLength + publicKeyLength) b.length)

/-- The signature of a message. -/
def sign (k : Keypair) (message : Bytes) : Bytes :=
  Ed25519.sign k.secret k.publicKey.bytes message

/-- A fresh keypair. -/
def generate? (entropy : Bytes) : Option Keypair :=
  (ofSecret (shake256 entropy secretLength)).toOption

end Keypair

end PeerIdentity.Ed25519
