import PeerIdentity.Curve.Weierstrass
import PeerIdentity.Der
import PeerIdentity.Hash.Sha2
import PeerIdentity.Hash.Shake

/-!
# ECDSA signatures

Signatures over SHA-256 on a curve whose order has 256 binary digits. A signature is a sequence of
two integers `r` and `s`.

* `Ecdsa.Signature`: the two numbers, with their encoding;
* `Ecdsa.Signature.lowS`: the smaller of the two signatures `(r, s)` and `(r, n - s)`;
* `Ecdsa.sign?`, `Ecdsa.verify`: signatures of messages.
-/

namespace PeerIdentity.Ecdsa

/-- A signature. -/
structure Signature where
  r : Nat
  s : Nat
  deriving DecidableEq

/-- The sequence of the two numbers. -/
def Signature.encode (sig : Signature) : Bytes :=
  Der.sequence [Der.integer sig.r, Der.integer sig.s]

/-- Reads a sequence of two numbers, after which nothing follows. -/
def Signature.decode? (b : Bytes) : Option Signature := do
  match ← Der.integers? 2 (← Der.whole? Der.sequenceTag b) with
  | [r, s] => some ⟨r, s⟩
  | _ => none

/-- The signature of the same message whose `s` is at most half of the order. -/
def Signature.lowS (order : Nat) (sig : Signature) : Signature :=
  if order / 2 < sig.s then ⟨sig.r, order - sig.s⟩ else sig

/-- The number that stands for a message. -/
def messageScalar (message : Bytes) : Nat :=
  Bytes.toNatBE (sha256 message)

/-- The number `r` of a nonce: the `x` of its multiple of the base point, modulo the order. -/
def commitment (C : Curve) (nonce : Nat) : Nat :=
  match C.mul nonce C.base with
  | .infinity => 0
  | .affine x _ => x % C.order

/-- The signature of a message under a secret scalar with a nonce, unless one of the two numbers is
zero. -/
def signWith? (C : Curve) (scalar nonce : Nat) (message : Bytes) : Option Signature :=
  let r := commitment C nonce
  let s := divMod (messageScalar message + r * scalar) nonce C.order
  if r = 0 ∨ s = 0 then none else some ⟨r, s⟩

/-- The nonce number `attempt` of a secret scalar, random bytes and a message. -/
def nonce (C : Curve) (scalar : Nat) (entropy message : Bytes) (attempt : Nat) : Nat :=
  let seed := UInt8.ofNat attempt :: Bytes.ofNatBE C.scalarLength scalar ++ entropy
  Bytes.toNatBE (shake256 (seed ++ sha256 message) (C.scalarLength + 16)) % (C.order - 1) + 1

/-- The signature with the first nonce out of `attempts` that yields one. -/
def sign? (C : Curve) (scalar : Nat) (entropy message : Bytes) : (attempts : Nat) → Option Signature
  | 0 => none
  | attempts + 1 =>
    match signWith? C scalar (nonce C scalar entropy message attempts) message with
    | some sig => some sig
    | none => sign? C scalar entropy message attempts

/-- Whether a signature belongs to a message under the public point `(x, y)`. -/
def Signature.isValid (C : Curve) (x y : Nat) (message : Bytes) (sig : Signature) : Bool :=
  if 0 < sig.r ∧ sig.r < C.order ∧ 0 < sig.s ∧ sig.s < C.order then
    -- A valid signature has `r` as the `x` of `u • G + v • P`.
    let u := divMod (messageScalar message) sig.s C.order
    let v := divMod sig.r sig.s C.order
    match C.add (C.mul u C.base) (C.mul v (.affine x y)) with
    | .infinity => false
    | .affine x _ => x % C.order = sig.r
  else false

/-- Whether the encoding of a signature belongs to a message under the public point `(x, y)`. -/
def verify (C : Curve) (x y : Nat) (message signature : Bytes) : Bool :=
  match Signature.decode? signature with
  | some sig => sig.isValid C x y message
  | none => false

end PeerIdentity.Ecdsa
