import PeerIdentity.Error

/-!
# Faults of encoded keys and of engines

* `KeyFault`: why the encoding of a key is refused;
* `EngineFault`: how the source of randomness or the engine of an algorithm fails;
* `Failure`: what generating a key or signing can end in.
-/

namespace PeerIdentity

/-- The text that stands for the reason of a reader that gives none. -/
def engineText : String :=
  "<engine>"

/-- Why the encoding of a key of a known type is refused. -/
inductive KeyFault where
  /-- The encoding has the wrong number of bytes. -/
  | length (expected actual : Nat)
  /-- A secret has the wrong number of bytes. -/
  | secretLength (expected actual : Nat)
  /-- The two halves of a keypair do not belong together. -/
  | publicMismatch
  /-- A compressed point starts with a wrong byte. -/
  | pointPrefix (lead : UInt8)
  /-- There is no such point. -/
  | noPoint
  /-- A secret scalar is zero or too large. -/
  | scalarRange
  /-- The encoding is no public key structure. -/
  | publicStructure
  /-- The encoding is no private key structure, where a key on a curve is expected. -/
  | curveKeyStructure
  /-- The encoding is no private key structure, where an RSA key is expected. -/
  | rsaKeyStructure
  /-- A structure holds a key of another kind than RSA. -/
  | notRsa (kind : String)
  /-- A structure holds a key of another kind than keys on curves. -/
  | notCurve (kind : String)
  /-- A key is on another curve than P-256. -/
  | otherCurve (name : String)
  /-- The number of binary digits of a modulus is out of bounds. -/
  | modulusSize (bits minimum maximum : Nat)
  /-- A public key structure is not the written form of its key. -/
  | nonCanonical
  /-- The seeds of the two halves of a keypair differ. -/
  | seedMismatch
  /-- A secret half does not have the hash of the public half. -/
  | hashMismatch
  deriving DecidableEq, Repr

/-- The message for an encoding that is refused. -/
def KeyFault.message : KeyFault → String
  | length expected actual => s!"expected {expected} bytes, got {actual}"
  | secretLength expected actual => s!"expected {expected}-byte secret, got {actual}"
  | publicMismatch => "public key does not match secret key"
  | pointPrefix lead => "invalid point prefix 0x" ++ Bytes.hex [lead]
  | noPoint => engineText
  | scalarRange => "secret scalar out of range"
  | publicStructure => s!"invalid SubjectPublicKeyInfo: {engineText}"
  | curveKeyStructure => s!"invalid ECPrivateKey: {engineText}"
  | rsaKeyStructure => s!"invalid PKCS#8 key: {engineText}"
  | notRsa kind => s!"expected an RSA key, got {kind}"
  | notCurve kind => s!"expected an EC key, got {kind}"
  | otherCurve name => s!"expected curve secp256r1, got {name}"
  | modulusSize bits minimum maximum => s!"{bits}-bit modulus outside [{minimum}, {maximum}]"
  | nonCanonical => "non-canonical SubjectPublicKeyInfo"
  | seedMismatch => "secret key seed does not match public key"
  | hashMismatch => "secret key hash does not match public key"

/-- The error for an encoding of a key of a given type that is refused. -/
def KeyFault.toError (t : KeyType) (fault : KeyFault) : IdentityError :=
  .decoding (some t) fault.message

/-- The kinds of engine faults. -/
inductive EngineFault.Kind where
  /-- The algorithm is not supported. -/
  | unsupported
  /-- A value is not accepted. -/
  | invalidValue
  /-- The operating system fails. -/
  | system
  deriving DecidableEq, Repr

/-- How an engine or its source of randomness fails. -/
structure EngineFault where
  /-- The kind of the fault. -/
  kind : EngineFault.Kind
  /-- The engine's own words. -/
  text : String
  deriving DecidableEq, Repr

/-- Random bytes, or the fault that came in their place. -/
abbrev Randomness := Except EngineFault Bytes

/-- What generating a key or signing can end in. -/
inductive Failure where
  /-- An error of this library. -/
  | identity (error : IdentityError)
  /-- An engine fault that is passed on as it is. -/
  | engine (fault : EngineFault)
  deriving DecidableEq, Repr

end PeerIdentity
