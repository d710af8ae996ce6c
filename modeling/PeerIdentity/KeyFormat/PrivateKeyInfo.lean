import PeerIdentity.Curve.PointEncoding
import PeerIdentity.KeyFormat.Algorithm
import PeerIdentity.Signature.Rsa

/-!
# Private key structures

A private key structure is a sequence of a version, an algorithm, a string of bytes that holds the
key, and possibly attributes. The keys of RSA, of curves and of DSA also have structures of their
own, which start with a version too.

* `PrivateKeyInfo`: the keys that a structure can hold;
* `PrivateKeyInfo.decode?`: reads a structure of any algorithm;
* `PrivateKeyInfo.encodeRsa`, `PrivateKeyInfo.encodeEc`: the one written form of a key.
-/

namespace PeerIdentity

/-- A private key of any algorithm, with its numbers where this library uses keys of the algorithm.
A key on a curve comes with its public point. -/
inductive PrivateKeyInfo where
  | rsa (numbers : Rsa.PrivateNumbers)
  | ec (curve : NamedCurve) (scalar x y : Nat)
  | ed25519
  | ed448
  | x25519
  | x448
  | dsa

namespace PrivateKeyInfo

/-- The name of the kind of key. -/
def kindName : PrivateKeyInfo → String
  | rsa .. => "RSAPrivateKey"
  | ec .. => "ECPrivateKey"
  | ed25519 => "Ed25519PrivateKey"
  | ed448 => "Ed448PrivateKey"
  | x25519 => "X25519PrivateKey"
  | x448 => "X448PrivateKey"
  | dsa => "DSAPrivateKey"

/-! ## Writing -/

/-- The sequence of the numbers of an RSA key. -/
def encodeRsaNumbers (k : Rsa.PrivateNumbers) : Bytes :=
  Der.sequence ([0, k.n, k.e, k.d, k.p, k.q, k.dp, k.dq, k.qinv].map Der.integer)

/-- The structure of an RSA key, with null parameters. -/
def encodeRsa (k : Rsa.PrivateNumbers) : Bytes :=
  Der.sequence [Der.integer 0, KeyAlgorithm.rsaElement,
    Der.element Der.octetStringTag (encodeRsaNumbers k)]

/-- The structure of a key on a named curve: the scalar, the curve and the public point in
uncompressed form. -/
def encodeEc (curve : NamedCurve) (scalar x y : Nat) : Bytes :=
  Der.sequence [Der.integer 1,
    Der.element Der.octetStringTag (Bytes.ofNatBE curve.curve.scalarLength scalar),
    Der.element (Der.fieldTag 0) (Der.identifier curve.identifier),
    Der.element (Der.fieldTag 1) (Der.bitString (curve.curve.uncompressed x y))]

/-! ## Reading -/

/-- Reads the sequence of the numbers of an RSA key. -/
def decodeRsaNumbers? (b : Bytes) : Option PrivateKeyInfo := do
  match ← Der.integers? 9 (← Der.whole? Der.sequenceTag b) with
  | [0, n, e, d, p, q, dp, dq, qinv] =>
    let k : Rsa.PrivateNumbers := { n, e, d, p, q, dp, dq, qinv }
    if k.IsConsistent then some (rsa k) else none
  | _ => none

/-- Reads the optional fields of a key on a curve: the curve and the public point. -/
def decodeEcFields? (b : Bytes) : Option (Option NamedCurve × Option Bytes) := do
  let (parameters, b) ← Der.readOptional? (Der.fieldTag 0) b
  let (point, b) ← Der.readOptional? (Der.fieldTag 1) b
  let curve ← match parameters with
    | none => some none
    | some p => (KeyAlgorithm.namedCurve? p).map some
  let point ← match point with
    | none => some none
    | some p => (Der.wholeBitString? p).map some
  if b = [] then some (curve, point) else none

/-- The key of a scalar on a curve. The scalar has the length of the curve's order and is from 1 up
to below it, and a public point that comes with it is its own. -/
def ofScalar? (curve : NamedCurve) (scalar : Bytes) (point : Option Bytes) :
    Option PrivateKeyInfo :=
  let C := curve.curve
  let k := Bytes.toNatBE scalar
  if scalar.length = C.scalarLength ∧ 0 < k ∧ k < C.order then
    match C.mul k C.base with
    | .infinity => none
    | .affine x y =>
      if point.all fun b => C.decodePoint? b = some (x, y) then some (ec curve k x y) else none
  else none

/-- Reads the structure of a key on a curve. The curve is given inside, outside or, in agreement, on
both sides. -/
def decodeEc? (outside : Option NamedCurve) (b : Bytes) : Option PrivateKeyInfo := do
  let (version, b) ← Der.readInteger? (← Der.whole? Der.sequenceTag b)
  let (scalar, b) ← Der.read? Der.octetStringTag b
  let (inside, point) ← decodeEcFields? b
  let curve ← inside <|> outside
  if version = 1 ∧ outside.all (· = curve) then ofScalar? curve scalar point else none

/-- Reads the sequence of the numbers of a DSA key. -/
def decodeDsaNumbers? (b : Bytes) : Option PrivateKeyInfo := do
  match ← Der.integers? 6 (← Der.whole? Der.sequenceTag b) with
  | 0 :: _ => some dsa
  | _ => none

/-- Reads a string of bytes of a given length. -/
def octets? (length : Nat) (b : Bytes) : Option Unit := do
  if (← Der.whole? Der.octetStringTag b).length = length then some () else none

/-- The key of an algorithm that a string of bytes holds. -/
def ofOctets? : KeyAlgorithm → Bytes → Option PrivateKeyInfo
  | .rsa, b => decodeRsaNumbers? b
  | .ec curve, b => decodeEc? (some curve) b
  | .ed25519, b => (octets? 32 b).map fun _ => ed25519
  | .ed448, b => (octets? 57 b).map fun _ => ed448
  | .x25519, b => (octets? 32 b).map fun _ => x25519
  | .x448, b => (octets? 56 b).map fun _ => x448
  | .dsa, b => (Der.wholeInteger? b).map fun _ => dsa

/-- Whether an element is an attribute: a sequence of an object identifier and a set. -/
def isAttribute (element : UInt8 × Bytes) : Bool :=
  element.1 = Der.sequenceTag &&
    match Der.read? Der.identifierTag element.2 with
    | some (identifier, values) =>
      Der.isIdentifier identifier && ((Der.whole? Der.setTag values).bind Der.setElements?).isSome
    | none => false

/-- Whether the rest of a structure is empty or consists of attributes. -/
def areAttributes (b : Bytes) : Bool :=
  b = [] || (((Der.whole? (Der.fieldTag 0) b).bind Der.setElements?).any (·.all isAttribute))

/-- Reads a sequence of the version 0, an algorithm, a string of bytes and attributes. -/
def decodeStructure? (b : Bytes) : Option PrivateKeyInfo := do
  let (version, b) ← Der.readInteger? (← Der.whole? Der.sequenceTag b)
  let (algorithm, b) ← Der.read? Der.sequenceTag b
  let (octets, b) ← Der.read? Der.octetStringTag b
  let algorithm ← KeyAlgorithm.decode? algorithm
  if version = 0 ∧ areAttributes b then ofOctets? algorithm octets else none

/-- Reads a private key of any algorithm. -/
def decode? (b : Bytes) : Option PrivateKeyInfo :=
  decodeStructure? b <|> decodeRsaNumbers? b <|> decodeEc? none b <|> decodeDsaNumbers? b

end PrivateKeyInfo

end PeerIdentity
