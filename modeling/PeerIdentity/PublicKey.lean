import PeerIdentity.Envelope
import PeerIdentity.Key.Dilithium
import PeerIdentity.Key.Ecdsa
import PeerIdentity.Key.Ed25519
import PeerIdentity.Key.Rsa
import PeerIdentity.Key.Secp256k1
import PeerIdentity.PeerId

/-!
# Public keys

A public key of any algorithm. It travels in an envelope, its peer identifier is the multihash of
that envelope, and keys of one algorithm are ordered by their encodings.

* `PublicKey.encode`, `PublicKey.decode`: the envelope of a key;
* `PublicKey.verify`: whether a signature belongs to a message;
* `PublicKey.peerId`, `PeerId.publicKey?`: the identifier of a key, and the key that an identifier
  embeds;
* `PublicKey.lt`, `PublicKey.sort`: the order of keys of one algorithm.
-/

namespace PeerIdentity

/-- A public key. -/
inductive PublicKey where
  | rsa (k : Rsa.PublicKey)
  | ed25519 (k : Ed25519.PublicKey)
  | secp256k1 (k : Secp256k1.PublicKey)
  | ecdsa (k : Ecdsa.PublicKey)
  | dilithium (k : Dilithium.PublicKey)
  deriving DecidableEq

namespace PublicKey

/-! ## Encodings -/

/-- The algorithm of a key. -/
def keyType : PublicKey → KeyType
  | rsa _ => .rsa
  | ed25519 _ => .ed25519
  | secp256k1 _ => .secp256k1
  | ecdsa _ => .ecdsa
  | dilithium _ => .dilithium

/-- The encoding of a key among the keys of its algorithm. -/
def rawBytes : PublicKey → Bytes
  | rsa k => k.encode
  | ed25519 k => k.encode
  | secp256k1 k => k.encode
  | ecdsa k => k.encode
  | dilithium k => k.encode

/-- Reads the encoding of a key of a given algorithm. -/
def readRaw (t : KeyType) (b : Bytes) : Except KeyFault PublicKey :=
  match t with
  | .rsa => (Rsa.PublicKey.decode b).map rsa
  | .ed25519 => (Ed25519.PublicKey.decode b).map ed25519
  | .secp256k1 => (Secp256k1.PublicKey.decode b).map secp256k1
  | .ecdsa => (Ecdsa.PublicKey.decode b).map ecdsa
  | .dilithium => (Dilithium.PublicKey.decode b).map dilithium

/-- The key of a given algorithm that an encoding writes. -/
def ofRaw (t : KeyType) (b : Bytes) : Except IdentityError PublicKey :=
  (readRaw t b).mapError (KeyFault.toError t)

/-- The envelope of a key. -/
def envelope (k : PublicKey) : Envelope :=
  ⟨k.keyType, k.rawBytes⟩

/-- The written form of the envelope. -/
def encode (k : PublicKey) : Bytes :=
  k.envelope.encode

/-- The key in an envelope. -/
def decode (b : Bytes) : Except IdentityError PublicKey :=
  match Envelope.decode b with
  | .error e => .error e
  | .ok m => ofRaw m.keyType m.data

/-! ## Uses -/

/-- Whether a signature belongs to a message. -/
def verify : (k : PublicKey) → (message signature : Bytes) → Bool
  | rsa k => k.verify
  | ed25519 k => k.verify
  | secp256k1 k => k.verify
  | ecdsa k => k.verify
  | dilithium k => k.verify

/-- The identifier of the peer that has the key. -/
def peerId (k : PublicKey) : PeerId :=
  ⟨(Multihash.ofData k.encode).encode⟩

/-- The name of the kind of key. -/
def kindName : PublicKey → String
  | rsa _ => "RsaPublicKey"
  | ed25519 _ => "Ed25519PublicKey"
  | secp256k1 _ => "Secp256k1PublicKey"
  | ecdsa _ => "EcdsaPublicKey"
  | dilithium _ => "DilithiumPublicKey"

/-- A key as it is shown in messages: the algorithm and the first eight bytes. -/
def describe (k : PublicKey) : String :=
  s!"PublicKey({k.keyType.name}, {Bytes.hex (k.rawBytes.take 8)}...)"

/-- A key as a key of its algorithm is shown in messages: with its encoding in full. -/
def describeKind (k : PublicKey) : String :=
  s!"{k.kindName}(key_bytes={quotedBytes k.rawBytes})"

/-- The key, if it is of a given algorithm. -/
def asType (k : PublicKey) (t : KeyType) : Except IdentityError PublicKey :=
  if k.keyType = t then .ok k else .error (.otherVariant k.keyType t)

/-! ## Order -/

/-- Two keys of different algorithms are asked for their order. -/
structure OrderFault where
  left : KeyType
  right : KeyType
  deriving DecidableEq, Repr

/-- The message for two keys that have no order. -/
def OrderFault.message (fault : OrderFault) : String :=
  s!"Cannot order {fault.left.name} key against {fault.right.name} key"

/-- Compares two keys of one algorithm by a relation on their encodings. -/
def compareBy (relation : Bytes → Bytes → Bool) (a b : PublicKey) : Except OrderFault Bool :=
  if a.keyType = b.keyType then .ok (relation a.rawBytes b.rawBytes)
  else .error ⟨a.keyType, b.keyType⟩

/-- Whether the encoding of `a` comes before that of `b`. -/
def lt : (a b : PublicKey) → Except OrderFault Bool :=
  compareBy fun x y => x < y

/-- Whether the encoding of `a` comes before that of `b` or is the same. -/
def le : (a b : PublicKey) → Except OrderFault Bool :=
  compareBy fun x y => ¬ y < x

/-- Whether the encoding of `a` comes after that of `b`. -/
def gt : (a b : PublicKey) → Except OrderFault Bool :=
  compareBy fun x y => y < x

/-- Whether the encoding of `a` comes after that of `b` or is the same. -/
def ge : (a b : PublicKey) → Except OrderFault Bool :=
  compareBy fun x y => ¬ x < y

/-- The keys of a list in ascending order of their encodings. The first key of another algorithm
than the one before it has no order. -/
def sort (ks : List PublicKey) : Except OrderFault (List PublicKey) :=
  -- Each key is compared with the one before it.
  match (ks.zip ks.tail).find? fun (a, b) => a.keyType ≠ b.keyType with
  | some (a, b) => .error ⟨b.keyType, a.keyType⟩
  | none => .ok (ks.mergeSort fun a b => ¬ b.rawBytes < a.rawBytes)

end PublicKey

namespace PeerId

/-- The public key that an identifier embeds, if there is one. -/
def publicKey? (p : PeerId) : Except IdentityError (Option PublicKey) :=
  match Multihash.decode p.multihash with
  | .error e => .error e
  | .ok ⟨.sha256, _⟩ => .ok none
  | .ok ⟨.identity, data⟩ => .ok (PublicKey.decode data).toOption

/-- Whether an identifier is that of a public key. -/
def isOf (p : PeerId) (k : PublicKey) : Bool :=
  p = k.peerId

end PeerId

end PeerIdentity
