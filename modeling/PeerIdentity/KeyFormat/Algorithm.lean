import PeerIdentity.Curve.Named
import PeerIdentity.Der

/-!
# Algorithms of encoded keys

Key structures name their algorithm by an object identifier, with parameters where the algorithm has
some.

* `KeyAlgorithm`: the algorithms that are recognised;
* `KeyAlgorithm.isPssParameters`: the parameters of RSA keys for probabilistic signatures;
* `KeyAlgorithm.decode?`: reads the contents of an algorithm element.
-/

namespace PeerIdentity

/-- The algorithm that a key structure names. -/
inductive KeyAlgorithm where
  | rsa
  | ec (curve : NamedCurve)
  | ed25519
  | ed448
  | x25519
  | x448
  | dsa
  deriving DecidableEq

namespace KeyAlgorithm

/-- The identifier of RSA. -/
def rsaIdentifier : Bytes :=
  [0x2a, 0x86, 0x48, 0x86, 0xf7, 0x0d, 0x01, 0x01, 0x01]

/-- The identifier of RSA keys for probabilistic signatures. -/
def rsaPssIdentifier : Bytes :=
  [0x2a, 0x86, 0x48, 0x86, 0xf7, 0x0d, 0x01, 0x01, 0x0a]

/-- The identifier of keys on elliptic curves. -/
def ecIdentifier : Bytes :=
  [0x2a, 0x86, 0x48, 0xce, 0x3d, 0x02, 0x01]

/-- The identifier of DSA. -/
def dsaIdentifier : Bytes :=
  [0x2a, 0x86, 0x48, 0xce, 0x38, 0x04, 0x01]

/-- The algorithm element of RSA. -/
def rsaElement : Bytes :=
  Der.sequence [Der.identifier rsaIdentifier, Der.null]

/-- The algorithm element of keys on a named curve. -/
def ecElement (curve : NamedCurve) : Bytes :=
  Der.sequence [Der.identifier ecIdentifier, Der.identifier curve.identifier]

/-- The curve that a parameter names. -/
def namedCurve? (parameters : Bytes) : Option NamedCurve := do
  NamedCurve.ofIdentifier? (← Der.whole? Der.identifierTag parameters)

/-! ## Parameters of probabilistic signatures -/

/-- The identifier of SHA-1. -/
def sha1Identifier : Bytes :=
  [0x2b, 0x0e, 0x03, 0x02, 0x1a]

/-- The identifiers of the hash functions: SHA-1, SHA-2 and SHA-3. -/
def hashIdentifiers : List Bytes :=
  sha1Identifier :: [1, 2, 3, 4, 7, 8, 9, 10].map fun n =>
    [0x60, 0x86, 0x48, 0x01, 0x65, 0x03, 0x04, 0x02, n]

/-- The identifier of the mask generation by a hash function. -/
def maskIdentifier : Bytes :=
  [0x2a, 0x86, 0x48, 0x86, 0xf7, 0x0d, 0x01, 0x01, 0x08]

/-- The algorithm element of SHA-1, which is the hash function when none is given. -/
def sha1Element : Bytes :=
  Der.sequence [Der.identifier sha1Identifier, Der.null]

/-- The element of the mask generation by SHA-1, which is the one when none is given. -/
def sha1MaskElement : Bytes :=
  Der.sequence [Der.identifier maskIdentifier, sha1Element]

/-- Whether an element is an algorithm: an identifier, and at most one element as its parameters. A
hash function has null parameters or none. -/
def isAlgorithm (element : Bytes) : Bool :=
  match (Der.whole? Der.sequenceTag element).bind (Der.read? Der.identifierTag) with
  | some (identifier, parameters) =>
    Der.isIdentifier identifier &&
      (parameters = [] ||
        if hashIdentifiers.contains identifier then parameters = Der.null
        else (Der.readAny? parameters).any fun (_, _, rest) => rest = [])
  | none => false

/-- Whether an element is a mask generation: an identifier and an algorithm. -/
def isMaskGeneration (element : Bytes) : Bool :=
  match (Der.whole? Der.sequenceTag element).bind (Der.read? Der.identifierTag) with
  | some (identifier, algorithm) => Der.isIdentifier identifier && isAlgorithm algorithm
  | none => false

/-- Whether bytes are the parameters of an RSA key for probabilistic signatures: a hash function, a
mask generation, the length of the salt and the number of the trailer, each unless it is the one
that is meant when none is given. -/
def isPssParameters (b : Bytes) : Bool :=
  Option.isSome do
    let (hash, b) ← Der.readOptional? (Der.fieldTag 0) (← Der.whole? Der.sequenceTag b)
    let (mask, b) ← Der.readOptional? (Der.fieldTag 1) b
    let (salt, b) ← Der.readOptional? (Der.fieldTag 2) b
    let (trailer, b) ← Der.readOptional? (Der.fieldTag 3) b
    let isNumber (limit default : Nat) (b : Bytes) : Bool :=
      (Der.wholeInteger? b).any fun n => n < limit && n ≠ default
    if hash.all (fun b => b ≠ sha1Element && isAlgorithm b) ∧
        mask.all (fun b => b ≠ sha1MaskElement && isMaskGeneration b) ∧
        salt.all (isNumber 65536 20) ∧ trailer.all (isNumber 256 1) ∧ b = [] then some ()
    else none

/-! ## Algorithms -/

/-- The algorithm of an identifier with the encoding of its parameters, which is empty when there
are none. RSA has null parameters or none, or parameters for probabilistic signatures under the
identifier of these, a curve key has its curve, DSA three integers, and the others have none. -/
def ofIdentifier? (identifier parameters : Bytes) : Option KeyAlgorithm :=
  if identifier = rsaIdentifier then
    if parameters = [] ∨ parameters = Der.null then some rsa else none
  else if identifier = ecIdentifier then (namedCurve? parameters).map ec
  else if identifier = dsaIdentifier then do
    let _ ← Der.integers? 3 (← Der.whole? Der.sequenceTag parameters)
    return dsa
  else if identifier = rsaPssIdentifier then
    if parameters = [] ∨ isPssParameters parameters then some rsa else none
  else if parameters ≠ [] then none
  else if identifier = [0x2b, 0x65, 0x6e] then some x25519
  else if identifier = [0x2b, 0x65, 0x6f] then some x448
  else if identifier = [0x2b, 0x65, 0x70] then some ed25519
  else if identifier = [0x2b, 0x65, 0x71] then some ed448
  else none

/-- Reads the contents of an algorithm element. -/
def decode? (contents : Bytes) : Option KeyAlgorithm := do
  let (identifier, parameters) ← Der.read? Der.identifierTag contents
  ofIdentifier? identifier parameters

end KeyAlgorithm

end PeerIdentity
