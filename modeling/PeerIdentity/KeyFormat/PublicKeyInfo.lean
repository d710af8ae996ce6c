import PeerIdentity.Curve.PointEncoding
import PeerIdentity.KeyFormat.Algorithm

/-!
# Public key structures

A public key structure is a sequence of an algorithm and a bit string that holds the key.

* `PublicKeyInfo`: the keys that such a structure can hold;
* `PublicKeyInfo.decode?`: reads a structure of any algorithm, and the bare sequence of the two
  numbers of an RSA key;
* `PublicKeyInfo.encodeRsa`, `PublicKeyInfo.encodeEc`: the one written form of a key.
-/

namespace PeerIdentity

/-- A public key of any algorithm, with its numbers where this library uses keys of the
algorithm. -/
inductive PublicKeyInfo where
  | rsa (n e : Nat)
  | ec (curve : NamedCurve) (x y : Nat)
  | ed25519
  | ed448
  | x25519
  | x448
  | dsa
  deriving DecidableEq

namespace PublicKeyInfo

/-- The name of the kind of key. -/
def kindName : PublicKeyInfo → String
  | rsa .. => "RSAPublicKey"
  | ec .. => "ECPublicKey"
  | ed25519 => "Ed25519PublicKey"
  | ed448 => "Ed448PublicKey"
  | x25519 => "X25519PublicKey"
  | x448 => "X448PublicKey"
  | dsa => "DSAPublicKey"

/-! ## Writing -/

/-- The sequence of the two numbers of an RSA key. -/
def encodeRsaNumbers (n e : Nat) : Bytes :=
  Der.sequence [Der.integer n, Der.integer e]

/-- The structure of an RSA key, with null parameters. -/
def encodeRsa (n e : Nat) : Bytes :=
  Der.sequence [KeyAlgorithm.rsaElement, Der.bitString (encodeRsaNumbers n e)]

/-- The structure of a point of a named curve, in uncompressed form. -/
def encodeEc (curve : NamedCurve) (x y : Nat) : Bytes :=
  Der.sequence [KeyAlgorithm.ecElement curve, Der.bitString (curve.curve.uncompressed x y)]

/-! ## Reading -/

/-- Reads the sequence of the two numbers of an RSA key. The exponent is odd, at least 3 and below
the modulus. -/
def decodeRsaNumbers? (b : Bytes) : Option PublicKeyInfo := do
  match ← Der.integers? 2 (← Der.whole? Der.sequenceTag b) with
  | [n, e] => if e % 2 = 1 ∧ 3 ≤ e ∧ e < n then some (rsa n e) else none
  | _ => none

/-- The key of an algorithm that a bit string holds. -/
def ofBits? : KeyAlgorithm → (bits : Bytes) → Option PublicKeyInfo
  | .rsa, bits => decodeRsaNumbers? bits
  | .ec curve, bits => (curve.curve.decodePoint? bits).map fun (x, y) => ec curve x y
  | .ed25519, bits => if bits.length = 32 then some ed25519 else none
  | .ed448, bits => if bits.length = 57 then some ed448 else none
  | .x25519, bits => if bits.length = 32 then some x25519 else none
  | .x448, bits => if bits.length = 56 then some x448 else none
  | .dsa, bits => (Der.wholeInteger? bits).map fun _ => dsa

/-- Reads a sequence of an algorithm and a bit string. -/
def decodeStructure? (b : Bytes) : Option PublicKeyInfo := do
  let (algorithm, rest) ← Der.read? Der.sequenceTag (← Der.whole? Der.sequenceTag b)
  let bits ← Der.wholeBitString? rest
  ofBits? (← KeyAlgorithm.decode? algorithm) bits

/-- Reads a public key of any algorithm. -/
def decode? (b : Bytes) : Option PublicKeyInfo :=
  decodeStructure? b <|> decodeRsaNumbers? b

end PublicKeyInfo

end PeerIdentity
