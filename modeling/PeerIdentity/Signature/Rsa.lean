import PeerIdentity.Arithmetic.Prime
import PeerIdentity.Hash.Sha2
import PeerIdentity.Hash.Shake

/-!
# RSA signatures

RSA numbers, and signatures over SHA-256 with the padding of version 1.5.

* `Rsa.PrivateNumbers`: the eight numbers of a private key with two primes;
* `Rsa.PrivateNumbers.IsConsistent`: the relations between them;
* `Rsa.sign`, `Rsa.verify`: signatures, as long as the modulus;
* `Rsa.generate?`: the numbers of a fresh key, from a string of random bytes.
-/

namespace PeerIdentity.Rsa

/-! ## Numbers -/

/-- The numbers of a private key. -/
structure PrivateNumbers where
  /-- The modulus. -/
  n : Nat
  /-- The public exponent. -/
  e : Nat
  /-- The private exponent. -/
  d : Nat
  /-- The first prime. -/
  p : Nat
  /-- The second prime. -/
  q : Nat
  /-- The private exponent modulo `p - 1`. -/
  dp : Nat
  /-- The private exponent modulo `q - 1`. -/
  dq : Nat
  /-- The inverse of `q` modulo `p`. -/
  qinv : Nat
  deriving DecidableEq

/-- The number of bytes of the longest product that the engine reduces. -/
def maxProductLength : Nat :=
  67108848

/-- The modulus is the product of two odd primes, the exponents undo each other and are short enough
to be multiplied, and the numbers that speed up the private operation are right. -/
def PrivateNumbers.IsConsistent (k : PrivateNumbers) : Prop :=
  k.p % 2 = 1 ∧ k.q % 2 = 1 ∧ k.n = k.p * k.q ∧ 1 < k.e ∧
    k.d * k.e % Nat.lcm (k.p - 1) (k.q - 1) = 1 ∧
    Bytes.byteLength (k.d * k.e) ≤ maxProductLength ∧
    k.dp = k.d % (k.p - 1) ∧ k.dq = k.d % (k.q - 1) ∧ k.qinv < k.p ∧ k.q * k.qinv % k.p = 1 ∧
    isProbablePrime k.p ∧ isProbablePrime k.q

instance (k : PrivateNumbers) : Decidable k.IsConsistent :=
  inferInstanceAs (Decidable (_ ∧ _))

/-! ## Signatures -/

/-- The structure that names SHA-256, up to the hash. -/
def digestHeader : Bytes :=
  [0x30, 0x31, 0x30, 0x0d, 0x06, 0x09, 0x60, 0x86, 0x48, 0x01, 0x65, 0x03, 0x04, 0x02, 0x01, 0x05,
    0x00, 0x04, 0x20]

/-- The padded hash of a message, `length` bytes long: 0, 1, bytes 255, 0 and the hash. -/
def padded (length : Nat) (message : Bytes) : Bytes :=
  let digest := digestHeader ++ sha256 message
  0 :: 1 :: List.replicate (length - 3 - digest.length) 0xff ++ 0 :: digest

/-- The signature of a message under the modulus `n` and the private exponent `d`. -/
def sign (n d : Nat) (message : Bytes) : Bytes :=
  let length := Bytes.byteLength n
  Bytes.ofNatBE length (powMod (Bytes.toNatBE (padded length message)) d n)

/-- Whether the public operation is carried out: the modulus is odd and above the exponent, and
large moduli have exponents of at most 64 bits. -/
def IsUsable (n e : Nat) : Prop :=
  n % 2 = 1 ∧ e < n ∧ (Bytes.bitLength n ≤ 3072 ∨ Bytes.bitLength e ≤ 64)

instance (n e : Nat) : Decidable (IsUsable n e) :=
  inferInstanceAs (Decidable (_ ∧ _))

/-- Whether a signature belongs to a message under the modulus `n` and the public exponent `e`. It
has the length of the modulus, is below it, and its power is the padded hash. -/
def verify (n e : Nat) (message signature : Bytes) : Bool :=
  let length := Bytes.byteLength n
  let s := Bytes.toNatBE signature
  if IsUsable n e ∧ signature.length = length ∧ s < n then
    Bytes.ofNatBE length (powMod s e n) = padded length message
  else false

/-! ## Generation -/

/-- The public exponent of generated keys. -/
def generatedExponent : Nat :=
  65537

/-- The numbers of a key with given primes. -/
def PrivateNumbers.ofPrimes? (p q : Nat) : Option PrivateNumbers := do
  let d ← inverse? generatedExponent (Nat.lcm (p - 1) (q - 1))
  let qinv ← inverse? q p
  return ⟨p * q, generatedExponent, d, p, q, d % (p - 1), d % (q - 1), qinv⟩

/-- A prime of `bits` binary digits, the highest two of them set, that is not 1 modulo the exponent.
The search starts at the number that the random bytes write. -/
def primeFrom? (bits : Nat) (random : Bytes) : Option Nat :=
  -- With the highest two digits set, the product of two such primes has twice as many digits.
  let low := Bytes.toNatBE random % (1 <<< (bits - 2))
  let start := 3 <<< (bits - 2) + low / 2 * 2 + 1
  match findPrime? (fun n => n % generatedExponent != 1) (64 * bits) start with
  | some p => if p < 1 <<< bits then some p else none
  | none => none

/-- The first prime that one of `attempts` blocks of the output of a sponge leads to. -/
def primeFromBlocks? (bits : Nat) (seed : Bytes) : (attempts : Nat) → Option Nat
  | 0 => none
  | attempts + 1 =>
    match primeFrom? bits (shake256 (UInt8.ofNat attempts :: seed) (bits / 8 + 1)) with
    | some p => some p
    | none => primeFromBlocks? bits seed attempts

/-- The numbers of a fresh key with a modulus of `bits` binary digits, from random bytes. -/
def generate? (bits : Nat) (entropy : Bytes) : Option PrivateNumbers := do
  let p ← primeFromBlocks? ((bits + 1) / 2) (0 :: entropy) 100
  let q ← primeFromBlocks? (bits / 2) (1 :: entropy) 100
  PrivateNumbers.ofPrimes? p q

end PeerIdentity.Rsa
