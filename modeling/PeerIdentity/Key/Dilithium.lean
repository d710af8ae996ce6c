import PeerIdentity.Key.Fault
import PeerIdentity.MlDsa.Scheme

/-!
# ML-DSA keys

A public key is encoded as its 2592 bytes, and a keypair as the secret key of 4896 bytes and the
public key. The two halves of a keypair have the same seed, and the secret half holds the hash of
the public half. The rest of the secret half is taken as it is.

* `Dilithium.PublicKey`, `Dilithium.Keypair`: the keys;
* `Dilithium.Keypair.decode`: reads a keypair whose halves agree in seed and hash.
-/

namespace PeerIdentity.Dilithium

/-- A public key: any 2592 bytes. -/
structure PublicKey where
  bytes : Bytes
  length_bytes : bytes.length = MlDsa.publicKeyLength
  deriving DecidableEq

namespace PublicKey

/-- The bytes of the key. -/
def encode (k : PublicKey) : Bytes :=
  k.bytes

/-- The public key of 2592 bytes. -/
def decode (b : Bytes) : Except KeyFault PublicKey :=
  if h : b.length = MlDsa.publicKeyLength then .ok ⟨b, h⟩
  else .error (.length MlDsa.publicKeyLength b.length)

/-- Whether a signature belongs to a message. -/
def verify (k : PublicKey) (message signature : Bytes) : Bool :=
  MlDsa.verify k.bytes message signature

end PublicKey

/-- Whether a secret and a public key have the same seed. -/
def SameSeed (secret publicKey : Bytes) : Prop :=
  secret.take 32 = publicKey.take 32

/-- Whether a secret key holds the hash of a public key. -/
def HoldsHash (secret publicKey : Bytes) : Prop :=
  (secret.drop 64).take 64 = shake256 publicKey 64

instance (secret publicKey : Bytes) : Decidable (SameSeed secret publicKey) :=
  inferInstanceAs (Decidable (_ = _))

instance (secret publicKey : Bytes) : Decidable (HoldsHash secret publicKey) :=
  inferInstanceAs (Decidable (_ = _))

/-- Whether a secret key is of the right length and agrees with a public key in seed and hash. -/
structure IsSecretOf (secret : Bytes) (publicKey : PublicKey) : Prop where
  length_secret : secret.length = MlDsa.secretKeyLength
  sameSeed : SameSeed secret publicKey.bytes
  holdsHash : HoldsHash secret publicKey.bytes

/-- A keypair. -/
structure Keypair where
  /-- The secret key. -/
  secret : Bytes
  /-- The public half. -/
  publicKey : PublicKey
  isSecretOf : IsSecretOf secret publicKey

namespace Keypair

/-- The number of bytes of an encoded keypair. -/
def encodedLength : Nat :=
  MlDsa.secretKeyLength + MlDsa.publicKeyLength

/-- The secret and the public key. -/
def encode (k : Keypair) : Bytes :=
  k.secret ++ k.publicKey.bytes

/-- Reads a secret and a public key that agree in seed and hash. -/
def decode (b : Bytes) : Except KeyFault Keypair :=
  if h : b.length = encodedLength then
    let secret := b.take MlDsa.secretKeyLength
    let publicKey : PublicKey :=
      ⟨b.drop MlDsa.secretKeyLength, by simp [h, encodedLength]⟩
    if sameSeed : SameSeed secret publicKey.bytes then
      if holdsHash : HoldsHash secret publicKey.bytes then
        .ok ⟨secret, publicKey, by simp [secret, h, encodedLength], sameSeed, holdsHash⟩
      else .error .hashMismatch
    else .error .seedMismatch
  else .error (.length encodedLength b.length)

/-- The signature of a message with 32 bytes of randomness. -/
def sign? (k : Keypair) (randomness message : Bytes) : Option Bytes :=
  MlDsa.sign? k.secret message randomness

/-- The keypair of a seed of 32 bytes. -/
def generate? (seed : Bytes) : Option Keypair :=
  let (publicKey, secret) := MlDsa.generate seed
  (decode (secret ++ publicKey)).toOption

end Keypair

end PeerIdentity.Dilithium
