import PeerIdentity.Curve.KeyPair
import PeerIdentity.Curve.Named
import PeerIdentity.Curve.PointEncoding
import PeerIdentity.Key.Fault
import PeerIdentity.Signature.Ecdsa

/-!
# Keys on secp256k1

A public key is encoded as a compressed point of 33 bytes and a keypair as its secret scalar of 32
bytes. Signatures are made in their low form, and verified in either form.

* `Secp256k1.PublicKey`, `Secp256k1.Keypair`: the keys;
* `Secp256k1.finish?`: the low form of an encoded signature;
* `Secp256k1.Keypair.sign?`: the signature of a message, in its low form.
-/

namespace PeerIdentity.Secp256k1

/-- The number of bytes of a public key. -/
def publicKeyLength : Nat :=
  33

/-- The number of bytes of a secret scalar. -/
def scalarLength : Nat :=
  32

/-- A public key. -/
structure PublicKey where
  /-- The point. -/
  point : Curve.PublicPoint Curve.secp256k1
  deriving DecidableEq

namespace PublicKey

/-- The compressed point. -/
def encode (k : PublicKey) : Bytes :=
  Curve.secp256k1.compressed k.point.x k.point.y

/-- The key of 33 bytes that start like a compressed point. -/
def ofCompressed (b : Bytes) : Except KeyFault PublicKey :=
  match (Curve.secp256k1.decodePoint? b).bind fun (x, y) => Curve.PublicPoint.of? _ x y with
  | some point => .ok ⟨point⟩
  | none => .error .noPoint

/-- Reads a compressed point. -/
def decode (b : Bytes) : Except KeyFault PublicKey :=
  if b.length = publicKeyLength then
    match b with
    | lead :: _ => if lead = 2 ∨ lead = 3 then ofCompressed b else .error (.pointPrefix lead)
    | [] => .error .noPoint
  else .error (.length publicKeyLength b.length)

/-- Whether an encoded signature belongs to a message. -/
def verify (k : PublicKey) (message signature : Bytes) : Bool :=
  Ecdsa.verify Curve.secp256k1 k.point.x k.point.y message signature

end PublicKey

/-- The low form of an encoded signature. -/
def finish? (signature : Bytes) : Option Bytes :=
  (Ecdsa.Signature.decode? signature).map fun sig =>
    (sig.lowS Curve.secp256k1.order).encode

/-- A keypair. -/
structure Keypair where
  /-- The scalar and its point. -/
  pair : Curve.KeyPair Curve.secp256k1

namespace Keypair

/-- The public half. -/
def publicKey (k : Keypair) : PublicKey :=
  ⟨k.pair.point⟩

/-- The secret scalar. -/
def encode (k : Keypair) : Bytes :=
  Bytes.ofNatBE scalarLength k.pair.scalar

/-- The keypair of a scalar from 1 up to below the order. -/
def ofScalar (k : Nat) : Except KeyFault Keypair :=
  if 0 < k ∧ k < Curve.secp256k1.order then
    match Curve.KeyPair.ofScalar? Curve.secp256k1 k with
    | some pair => .ok ⟨pair⟩
    | none => .error .noPoint
  else .error .scalarRange

/-- Reads a secret scalar. -/
def decode (b : Bytes) : Except KeyFault Keypair :=
  if b.length = scalarLength then ofScalar (Bytes.toNatBE b)
  else .error (.length scalarLength b.length)

/-- The signature of a message, in its low form. -/
def sign? (k : Keypair) (entropy message : Bytes) : Option Bytes :=
  (Ecdsa.sign? Curve.secp256k1 k.pair.scalar entropy message 100).bind fun sig =>
    finish? sig.encode

/-- A fresh keypair. -/
def generate? (entropy : Bytes) : Option Keypair :=
  (Curve.KeyPair.generate? Curve.secp256k1 entropy).map Keypair.mk

end Keypair

end PeerIdentity.Secp256k1
