import PeerIdentity.Curve.KeyPair
import PeerIdentity.Key.Fault
import PeerIdentity.KeyFormat.PrivateKeyInfo
import PeerIdentity.KeyFormat.PublicKeyInfo
import PeerIdentity.Signature.Ecdsa

/-!
# Keys on P-256

A public key is encoded as a public key structure with an uncompressed point, and a keypair as the
structure of keys on curves, with the curve and the public point.

* `Ecdsa.PublicKey`, `Ecdsa.Keypair`: the keys;
* `Ecdsa.PublicKey.decode`: reads the one written form of a public key;
* `Ecdsa.Keypair.decode`: reads a keypair in any structure.
-/

namespace PeerIdentity.Ecdsa

/-- A public key. -/
structure PublicKey where
  /-- The point. -/
  point : Curve.PublicPoint Curve.secp256r1
  deriving DecidableEq

namespace PublicKey

/-- The public key structure. -/
def encode (k : PublicKey) : Bytes :=
  PublicKeyInfo.encodeEc .secp256r1 k.point.x k.point.y

/-- The key of a point that a structure holds. -/
def ofPoint (x y : Nat) : Except KeyFault PublicKey :=
  match Curve.PublicPoint.of? _ x y with
  | some point => .ok ⟨point⟩
  | none => .error .publicStructure

/-- Reads a public key structure, which must be the written form of its key. -/
def decode (b : Bytes) : Except KeyFault PublicKey :=
  match PublicKeyInfo.decode? b with
  | none => .error .publicStructure
  | some (.ec .secp256r1 x y) =>
    if PublicKeyInfo.encodeEc .secp256r1 x y = b then ofPoint x y else .error .nonCanonical
  | some (.ec other _ _) => .error (.otherCurve other.curve.name)
  | some other => .error (.notCurve other.kindName)

/-- Whether an encoded signature belongs to a message. -/
def verify (k : PublicKey) (message signature : Bytes) : Bool :=
  Ecdsa.verify Curve.secp256r1 k.point.x k.point.y message signature

end PublicKey

/-- A keypair. -/
structure Keypair where
  /-- The scalar and its point. -/
  pair : Curve.KeyPair Curve.secp256r1

namespace Keypair

/-- The public half. -/
def publicKey (k : Keypair) : PublicKey :=
  ⟨k.pair.point⟩

/-- The structure of a key on a curve. -/
def encode (k : Keypair) : Bytes :=
  PrivateKeyInfo.encodeEc .secp256r1 k.pair.scalar k.pair.point.x k.pair.point.y

/-- The keypair of a scalar that a structure holds. -/
def ofScalar (k : Nat) : Except KeyFault Keypair :=
  match Curve.KeyPair.ofScalar? Curve.secp256r1 k with
  | some pair => .ok ⟨pair⟩
  | none => .error .curveKeyStructure

/-- Reads a private key structure. -/
def decode (b : Bytes) : Except KeyFault Keypair :=
  match PrivateKeyInfo.decode? b with
  | none => .error .curveKeyStructure
  | some (.ec .secp256r1 k _ _) => ofScalar k
  | some (.ec other _ _ _) => .error (.otherCurve other.curve.name)
  | some other => .error (.notCurve other.kindName)

/-- The encoded signature of a message. -/
def sign? (k : Keypair) (entropy message : Bytes) : Option Bytes :=
  (Ecdsa.sign? Curve.secp256r1 k.pair.scalar entropy message 100).map Signature.encode

/-- A fresh keypair. -/
def generate? (entropy : Bytes) : Option Keypair :=
  (Curve.KeyPair.generate? Curve.secp256r1 entropy).map Keypair.mk

end Keypair

end PeerIdentity.Ecdsa
