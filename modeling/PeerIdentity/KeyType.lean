import PeerIdentity.Text.Quoted
import PeerIdentity.Text.Uppercase

/-!
# Key types

The signature algorithms of identity keys, with the numbers that stand for them in encoded keys.

* `KeyType.code`, `KeyType.ofCode?`: the number of a key type;
* `KeyType.name`, `KeyType.ofName?`: the name of a key type, which is found in any case.
-/

namespace PeerIdentity

/-- The signature algorithm of a key. -/
inductive KeyType where
  /-- RSA with PKCS#1 v1.5 signatures over SHA-256. -/
  | rsa
  /-- Ed25519. -/
  | ed25519
  /-- ECDSA over secp256k1. -/
  | secp256k1
  /-- ECDSA over P-256. -/
  | ecdsa
  /-- ML-DSA-87. -/
  | dilithium
  deriving DecidableEq, Repr

namespace KeyType

/-- The key types in the order of their numbers. -/
def all : List KeyType :=
  [rsa, ed25519, secp256k1, ecdsa, dilithium]

/-- The number of a key type. -/
def code : KeyType → Nat
  | rsa => 0
  | ed25519 => 1
  | secp256k1 => 2
  | ecdsa => 3
  | dilithium => 4

/-- The key type of a number. -/
def ofCode? : Nat → Option KeyType
  | 0 => some rsa
  | 1 => some ed25519
  | 2 => some secp256k1
  | 3 => some ecdsa
  | 4 => some dilithium
  | _ => none

/-- The name of a key type in upper case. -/
def name : KeyType → String
  | rsa => "RSA"
  | ed25519 => "ED25519"
  | secp256k1 => "SECP256K1"
  | ecdsa => "ECDSA"
  | dilithium => "DILITHIUM"

/-- The name of a key type in lower case. -/
def lowerName : KeyType → String
  | rsa => "rsa"
  | ed25519 => "ed25519"
  | secp256k1 => "secp256k1"
  | ecdsa => "ecdsa"
  | dilithium => "dilithium"

/-- The key type whose name in upper case is that of a text. -/
def ofName? (s : String) : Option KeyType :=
  all.find? fun t => t.name.toList = upperAscii s.toList

/-- The message for a text that names no key type. -/
def unknownName (s : String) : String :=
  s!"Unknown key type {quoted s} (expected one of: " ++ ", ".intercalate (all.map lowerName) ++ ")"

/-- The message for a number that is no key type's. -/
def unknownCode (v : Int) : String :=
  s!"{v} is not a valid KeyType"

/-- The code of an algorithm is read back. -/
theorem ofCode?_code (t : KeyType) : ofCode? t.code = some t := by
  cases t <;> rfl

/-- A number that is read as an algorithm is the code of it. -/
theorem eq_code_of_ofCode? {n : Nat} {t : KeyType} (h : ofCode? n = some t) : n = t.code := by
  unfold ofCode? at h
  split at h <;> simp_all [code] <;> subst h <;> rfl

end KeyType

end PeerIdentity
