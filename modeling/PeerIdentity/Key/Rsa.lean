import PeerIdentity.Config
import PeerIdentity.Key.Fault
import PeerIdentity.KeyFormat.PrivateKeyInfo
import PeerIdentity.KeyFormat.PublicKeyInfo

/-!
# RSA keys

Public keys are encoded as public key structures and keypairs as private key structures. The size of
the modulus is bounded, for decoded and for generated keys.

* `Rsa.PublicKey`, `Rsa.Keypair`: the keys;
* `Rsa.PublicKey.decode`: reads the one written form of a public key;
* `Rsa.Keypair.decode`: reads a keypair in any structure.
-/

namespace PeerIdentity.Rsa

/-- Whether a modulus has an accepted number of binary digits. -/
def IsSized (n : Nat) : Prop :=
  minRsaBits ≤ Bytes.bitLength n ∧ Bytes.bitLength n ≤ maxRsaBits

instance (n : Nat) : Decidable (IsSized n) :=
  inferInstanceAs (Decidable (_ ∧ _))

/-- The fault of a modulus whose size is out of bounds. -/
def sizeFault (n : Nat) : KeyFault :=
  .modulusSize (Bytes.bitLength n) minRsaBits maxRsaBits

/-- A public key. -/
structure PublicKey where
  /-- The modulus. -/
  n : Nat
  /-- The exponent. -/
  e : Nat
  sized : IsSized n
  deriving DecidableEq

namespace PublicKey

/-- The public key structure. -/
def encode (k : PublicKey) : Bytes :=
  PublicKeyInfo.encodeRsa k.n k.e

/-- Reads a public key structure, which must be the written form of its key. -/
def decode (b : Bytes) : Except KeyFault PublicKey :=
  match PublicKeyInfo.decode? b with
  | none => .error .publicStructure
  | some (.rsa n e) =>
    if h : IsSized n then
      if PublicKeyInfo.encodeRsa n e = b then .ok ⟨n, e, h⟩ else .error .nonCanonical
    else .error (sizeFault n)
  | some other => .error (.notRsa other.kindName)

/-- Whether a signature belongs to a message. -/
def verify (k : PublicKey) (message signature : Bytes) : Bool :=
  Rsa.verify k.n k.e message signature

end PublicKey

/-- A keypair. -/
structure Keypair where
  /-- The numbers of the private key. -/
  numbers : PrivateNumbers
  consistent : numbers.IsConsistent
  sized : IsSized numbers.n

namespace Keypair

/-- The public half. -/
def publicKey (k : Keypair) : PublicKey :=
  ⟨k.numbers.n, k.numbers.e, k.sized⟩

/-- The private key structure. -/
def encode (k : Keypair) : Bytes :=
  PrivateKeyInfo.encodeRsa k.numbers

/-- The keypair of consistent numbers. -/
def ofNumbers (numbers : PrivateNumbers) : Except KeyFault Keypair :=
  if consistent : numbers.IsConsistent then
    if sized : IsSized numbers.n then .ok ⟨numbers, consistent, sized⟩
    else .error (sizeFault numbers.n)
  else .error .rsaKeyStructure

/-- Reads a private key structure. -/
def decode (b : Bytes) : Except KeyFault Keypair :=
  match PrivateKeyInfo.decode? b with
  | none => .error .rsaKeyStructure
  | some (.rsa numbers) => ofNumbers numbers
  | some other => .error (.notRsa other.kindName)

/-- The signature of a message. -/
def sign (k : Keypair) (message : Bytes) : Bytes :=
  Rsa.sign k.numbers.n k.numbers.d message

/-- A fresh keypair of a given size. -/
def generate? (bits : Nat) (entropy : Bytes) : Option Keypair := do
  (ofNumbers (← Rsa.generate? bits entropy)).toOption

end Keypair

end PeerIdentity.Rsa
