import PeerIdentity.PublicKey

/-!
# Keypairs

A keypair of any algorithm. It travels in an envelope like a public key, and signs messages.

* `Keypair.generate`, `Keypair.generateRsa`: fresh keypairs from random bytes;
* `Keypair.encode`, `Keypair.decode`: the envelope of a keypair;
* `Keypair.sign`: the signature of a message.
-/

namespace PeerIdentity

/-- A keypair. -/
inductive Keypair where
  | rsa (k : Rsa.Keypair)
  | ed25519 (k : Ed25519.Keypair)
  | secp256k1 (k : Secp256k1.Keypair)
  | ecdsa (k : Ecdsa.Keypair)
  | dilithium (k : Dilithium.Keypair)

namespace Keypair

/-! ## Encodings -/

/-- The algorithm of a keypair. -/
def keyType : Keypair → KeyType
  | rsa _ => .rsa
  | ed25519 _ => .ed25519
  | secp256k1 _ => .secp256k1
  | ecdsa _ => .ecdsa
  | dilithium _ => .dilithium

/-- The public half. -/
def publicKey : Keypair → PublicKey
  | rsa k => .rsa k.publicKey
  | ed25519 k => .ed25519 k.publicKey
  | secp256k1 k => .secp256k1 k.publicKey
  | ecdsa k => .ecdsa k.publicKey
  | dilithium k => .dilithium k.publicKey

/-- The encoding of a keypair among the keypairs of its algorithm. -/
def rawBytes : Keypair → Bytes
  | rsa k => k.encode
  | ed25519 k => k.encode
  | secp256k1 k => k.encode
  | ecdsa k => k.encode
  | dilithium k => k.encode

/-- Reads the encoding of a keypair of a given algorithm. -/
def readRaw (t : KeyType) (b : Bytes) : Except KeyFault Keypair :=
  match t with
  | .rsa => (Rsa.Keypair.decode b).map rsa
  | .ed25519 => (Ed25519.Keypair.decode b).map ed25519
  | .secp256k1 => (Secp256k1.Keypair.decode b).map secp256k1
  | .ecdsa => (Ecdsa.Keypair.decode b).map ecdsa
  | .dilithium => (Dilithium.Keypair.decode b).map dilithium

/-- The keypair of a given algorithm that an encoding writes. -/
def ofRaw (t : KeyType) (b : Bytes) : Except IdentityError Keypair :=
  (readRaw t b).mapError (KeyFault.toError t)

/-- The Ed25519 keypair of a secret. -/
def ofEd25519Secret (secret : Bytes) : Except IdentityError Keypair :=
  ((Ed25519.Keypair.ofSecret secret).map ed25519).mapError (KeyFault.toError .ed25519)

/-- The envelope of a keypair. -/
def envelope (k : Keypair) : Envelope :=
  ⟨k.keyType, k.rawBytes⟩

/-- The written form of the envelope. -/
def encode (k : Keypair) : Bytes :=
  k.envelope.encode

/-- The keypair in an envelope. -/
def decode (b : Bytes) : Except IdentityError Keypair :=
  match Envelope.decode b with
  | .error e => .error e
  | .ok m => ofRaw m.keyType m.data

/-- The identifier of the peer that has the keypair. -/
def peerId (k : Keypair) : PeerId :=
  k.publicKey.peerId

/-! ## Signing -/

/-- The signature that an engine has made, or the error when it has made none. -/
def signed (t : KeyType) : Option Bytes → Except Failure Bytes
  | some signature => .ok signature
  | none => .error (.identity (.signing t engineText))

/-- The failure of a signature for which randomness is missing. A value that is not accepted is an
error of signing, other faults are passed on. -/
def signFailure (t : KeyType) (fault : EngineFault) : Failure :=
  match fault.kind with
  | .invalidValue => .identity (.signing t fault.text)
  | _ => .engine fault

/-- The signature of a message. RSA and Ed25519 need no randomness, and the signatures on curves
draw their nonces from the secret and the message beside it. -/
def sign (k : Keypair) (randomness : Randomness) (message : Bytes) : Except Failure Bytes :=
  match k with
  | rsa k => .ok (k.sign message)
  | ed25519 k => .ok (k.sign message)
  | secp256k1 k => signed .secp256k1 (k.sign? (randomness.toOption.getD []) message)
  | ecdsa k => signed .ecdsa (k.sign? (randomness.toOption.getD []) message)
  | dilithium k =>
    match randomness with
    | .error fault => .error (signFailure .dilithium fault)
    | .ok random => signed .dilithium (k.sign? random message)

/-! ## Generation -/

/-- The failure of the generation of a keypair for which randomness is missing. A fault of the
system is an error of generation, and so is every other fault but those of ML-DSA, which are passed
on. -/
def generateFailure (t : KeyType) (fault : EngineFault) : Failure :=
  if t ≠ .dilithium then .identity (.generation t s!"engine failure: {fault.text}")
  else if fault.kind = .system then
    .identity (.generation t s!"entropy source unavailable: {fault.text}")
  else .engine fault

/-- The keypair that an engine has generated, or the error when it has generated none. -/
def generated (t : KeyType) : Option Keypair → Except Failure Keypair
  | some k => .ok k
  | none => .error (.identity (.generation t s!"engine failure: {engineText}"))

/-- The keypair of an algorithm that random bytes lead to. -/
def ofEntropy? (t : KeyType) (rsaBits : Nat) (entropy : Bytes) : Option Keypair :=
  match t with
  | .rsa => (Rsa.Keypair.generate? rsaBits entropy).map rsa
  | .ed25519 => (Ed25519.Keypair.generate? entropy).map ed25519
  | .secp256k1 => (Secp256k1.Keypair.generate? entropy).map secp256k1
  | .ecdsa => (Ecdsa.Keypair.generate? entropy).map ecdsa
  | .dilithium => (Dilithium.Keypair.generate? entropy).map dilithium

/-- A fresh keypair of an algorithm. -/
def generate (config : Config) (t : KeyType) (randomness : Randomness) : Except Failure Keypair :=
  match randomness with
  | .error fault => .error (generateFailure t fault)
  | .ok entropy => generated t (ofEntropy? t config.rsaBits entropy)

/-- A fresh RSA keypair with a modulus of a given number of binary digits. -/
def generateRsa (bits : Int) (randomness : Randomness) : Except Failure Keypair :=
  if minRsaBits ≤ bits ∧ bits ≤ maxRsaBits then
    match randomness with
    | .error fault => .error (generateFailure .rsa fault)
    | .ok entropy => generated .rsa (ofEntropy? .rsa bits.toNat entropy)
  else .error (.identity (.generation .rsa s!"unsupported modulus size {bits}"))

end Keypair

/-! ## Names -/

namespace PublicKey

/-- The name of the kind of keypair that a public key is half of. -/
def keypairKindName : PublicKey → String
  | rsa _ => "RsaKeypair"
  | ed25519 _ => "Ed25519Keypair"
  | secp256k1 _ => "Secp256k1Keypair"
  | ecdsa _ => "EcdsaKeypair"
  | dilithium _ => "DilithiumKeypair"

/-- The keypair of an algorithm as it is shown in messages: the size of an RSA modulus, the first
eight bytes of an ML-DSA key, and the other public keys in full. -/
def describeKeypairKind (k : PublicKey) : String :=
  match k with
  | rsa r => s!"{k.keypairKindName}(bits={Bytes.bitLength r.n})"
  | dilithium _ => s!"{k.keypairKindName}(public={Bytes.hex (k.rawBytes.take 8)}...)"
  | _ => s!"{k.keypairKindName}(public={Bytes.hex k.rawBytes})"

/-- The keypair of any algorithm as it is shown in messages. -/
def describeKeypair (k : PublicKey) : String :=
  s!"Keypair({k.keyType.name}, peer_id={k.peerId.toBase58})"

end PublicKey

end PeerIdentity
