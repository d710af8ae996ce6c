import PeerIdentity.Bytes

/-!
# SHA-256 and SHA-512

The two hash functions of the SHA-2 family are one construction on words of 32 and 64 bits. A
message is padded to whole blocks of sixteen words, and each block changes a state of eight words
in one step for each round constant.

* `Variant`: what distinguishes the members of the family;
* `Variant.pad`: the message, a one bit, zeros, and the length in bits;
* `Variant.compress`: the effect of one block on the state;
* `sha256`, `sha512`: the digests.
-/

namespace PeerIdentity

namespace Sha2

/-- The words that the construction computes with. -/
class Word (W : Type) extends Add W, AndOp W, XorOp W, Complement W where
  /-- Bytes in a word. -/
  size : Nat
  /-- The word of a number modulo the number of words. -/
  ofNat : Nat → W
  /-- The number that a word stands for. -/
  toNat : W → Nat
  /-- Rotation by a number of bits towards the low end. -/
  rotateRight : W → Nat → W
  /-- Shift by a number of bits towards the low end. -/
  shiftRight : W → Nat → W

instance : Word UInt32 where
  size := 4
  ofNat := UInt32.ofNat
  toNat := UInt32.toNat
  rotateRight x n := x >>> UInt32.ofNat n ||| x <<< UInt32.ofNat (32 - n)
  shiftRight x n := x >>> UInt32.ofNat n

instance : Word UInt64 where
  size := 8
  ofNat := UInt64.ofNat
  toNat := UInt64.toNat
  rotateRight x n := x >>> UInt64.ofNat n ||| x <<< UInt64.ofNat (64 - n)
  shiftRight x n := x >>> UInt64.ofNat n

/-- The eight words that the blocks change. -/
structure State (W : Type) where
  (a b c d e f g h : W)

/-- A member of the family. -/
structure Variant (W : Type) where
  /-- The first bits of the fractional parts of the square roots of the first eight primes. -/
  initial : State W
  /-- The first bits of the fractional parts of the cube roots of the first primes, one for each
  step. -/
  roundConstants : List W
  /-- The rotations of the sum over the first word of the state. -/
  sum0 : Nat × Nat × Nat
  /-- The rotations of the sum over the fifth word of the state. -/
  sum1 : Nat × Nat × Nat
  /-- The two rotations and the shift of the schedule's older word. -/
  small0 : Nat × Nat × Nat
  /-- The two rotations and the shift of the schedule's newer word. -/
  small1 : Nat × Nat × Nat

variable {W : Type} [Word W]

open Word

/-- The exclusive sum of three rotations of a word. -/
@[inline] def sum (r : Nat × Nat × Nat) (x : W) : W :=
  rotateRight x r.1 ^^^ rotateRight x r.2.1 ^^^ rotateRight x r.2.2

/-- The exclusive sum of two rotations and a shift of a word. -/
@[inline] def small (r : Nat × Nat × Nat) (x : W) : W :=
  rotateRight x r.1 ^^^ rotateRight x r.2.1 ^^^ shiftRight x r.2.2

/-- Adds two states word by word. -/
def State.add (s t : State W) : State W :=
  ⟨s.a + t.a, s.b + t.b, s.c + t.c, s.d + t.d, s.e + t.e, s.f + t.f, s.g + t.g, s.h + t.h⟩

/-- The bytes of a state. -/
def State.toBytes (s : State W) : Bytes :=
  [s.a, s.b, s.c, s.d, s.e, s.f, s.g, s.h].flatMap fun w =>
    Bytes.ofNatBE (size W) (toNat w)

namespace Variant

/-- One step: mixes a round constant and a word of the schedule into the state. -/
@[specialize] def step (v : Variant W) (s : State W) (k w : W) : State W :=
  let choice := (s.e &&& s.f) ^^^ (~~~s.e &&& s.g)
  let majority := (s.a &&& s.b) ^^^ (s.a &&& s.c) ^^^ (s.b &&& s.c)
  let t := s.h + sum v.sum1 s.e + choice + k + w
  ⟨t + (sum v.sum0 s.a + majority), s.a, s.b, s.c, s.d + t, s.e, s.f, s.g⟩

/-- Puts `count` more words in front of a schedule whose latest word comes first. -/
@[specialize] def extend (v : Variant W) : (count : Nat) → List W → List W
  | 0, ws => ws
  | count + 1, ws =>
    let zero := ofNat 0
    let next := small v.small1 (ws.getD 1 zero) + ws.getD 6 zero +
      small v.small0 (ws.getD 14 zero) + ws.getD 15 zero
    extend v count (next :: ws)

/-- The words of a block and their extension to one word for each step. -/
@[specialize] def schedule (v : Variant W) (block : Bytes) : List W :=
  let words := (Bytes.blocks (size W) 16 block).map fun w => ofNat (Bytes.toNatBE w)
  (v.extend (v.roundConstants.length - 16) words.reverse).reverse

/-- Mixes one block into the state. -/
@[specialize] def compress (v : Variant W) (s : State W) (block : Bytes) : State W :=
  let mixed := (v.roundConstants.zip (v.schedule block)).foldl (fun t kw => v.step t kw.1 kw.2) s
  s.add mixed

/-- The number of zero bytes after the one bit of a message of `n` bytes. The length in bits takes
two words. -/
def paddingZeros (W : Type) [Word W] (n : Nat) : Nat :=
  (30 * size W - 1 - n % (16 * size W)) % (16 * size W)

/-- The message followed by a one bit, zeros, and its length in bits. -/
def pad (W : Type) [Word W] (message : Bytes) : Bytes :=
  message ++ 0x80 :: List.replicate (paddingZeros W message.length) 0 ++
    Bytes.ofNatBE (2 * size W) (8 * message.length)

/-- The digest of a message. -/
@[specialize] def digest (v : Variant W) (message : Bytes) : Bytes :=
  let padded := pad W message
  let blocks := Bytes.blocks (16 * size W) (padded.length / (16 * size W)) padded
  (blocks.foldl v.compress v.initial).toBytes

end Variant

/-- Words of `k` bytes are written next to each other. -/
theorem length_flatMap_ofNatBE (k : Nat) (ws : List W) :
    (ws.flatMap fun w => Bytes.ofNatBE k (toNat w)).length = k * ws.length := by
  induction ws with
  | nil => rfl
  | cons w ws ih => simp [ih, Nat.mul_succ, Nat.add_comm]

/-- A digest is eight words long. -/
@[simp] theorem length_digest (v : Variant W) (message : Bytes) :
    (v.digest message).length = 8 * size W := by
  simp only [Variant.digest, State.toBytes, length_flatMap_ofNatBE]
  exact Nat.mul_comm _ _

end Sha2

/-! ## The two members -/

/-- SHA-256 works on words of 32 bits in 64 steps. -/
def Sha2.variant256 : Sha2.Variant UInt32 where
  initial := ⟨0x6a09e667, 0xbb67ae85, 0x3c6ef372, 0xa54ff53a,
    0x510e527f, 0x9b05688c, 0x1f83d9ab, 0x5be0cd19⟩
  roundConstants := [
      0x428a2f98, 0x71374491, 0xb5c0fbcf, 0xe9b5dba5, 0x3956c25b, 0x59f111f1, 0x923f82a4, 0xab1c5ed5,
      0xd807aa98, 0x12835b01, 0x243185be, 0x550c7dc3, 0x72be5d74, 0x80deb1fe, 0x9bdc06a7, 0xc19bf174,
      0xe49b69c1, 0xefbe4786, 0x0fc19dc6, 0x240ca1cc, 0x2de92c6f, 0x4a7484aa, 0x5cb0a9dc, 0x76f988da,
      0x983e5152, 0xa831c66d, 0xb00327c8, 0xbf597fc7, 0xc6e00bf3, 0xd5a79147, 0x06ca6351, 0x14292967,
      0x27b70a85, 0x2e1b2138, 0x4d2c6dfc, 0x53380d13, 0x650a7354, 0x766a0abb, 0x81c2c92e, 0x92722c85,
      0xa2bfe8a1, 0xa81a664b, 0xc24b8b70, 0xc76c51a3, 0xd192e819, 0xd6990624, 0xf40e3585, 0x106aa070,
      0x19a4c116, 0x1e376c08, 0x2748774c, 0x34b0bcb5, 0x391c0cb3, 0x4ed8aa4a, 0x5b9cca4f, 0x682e6ff3,
      0x748f82ee, 0x78a5636f, 0x84c87814, 0x8cc70208, 0x90befffa, 0xa4506ceb, 0xbef9a3f7, 0xc67178f2]
  sum0 := (2, 13, 22)
  sum1 := (6, 11, 25)
  small0 := (7, 18, 3)
  small1 := (17, 19, 10)

/-- SHA-512 works on words of 64 bits in 80 steps. -/
def Sha2.variant512 : Sha2.Variant UInt64 where
  initial := ⟨0x6a09e667f3bcc908, 0xbb67ae8584caa73b, 0x3c6ef372fe94f82b, 0xa54ff53a5f1d36f1,
    0x510e527fade682d1, 0x9b05688c2b3e6c1f, 0x1f83d9abfb41bd6b, 0x5be0cd19137e2179⟩
  roundConstants := [
      0x428a2f98d728ae22, 0x7137449123ef65cd, 0xb5c0fbcfec4d3b2f, 0xe9b5dba58189dbbc,
      0x3956c25bf348b538, 0x59f111f1b605d019, 0x923f82a4af194f9b, 0xab1c5ed5da6d8118,
      0xd807aa98a3030242, 0x12835b0145706fbe, 0x243185be4ee4b28c, 0x550c7dc3d5ffb4e2,
      0x72be5d74f27b896f, 0x80deb1fe3b1696b1, 0x9bdc06a725c71235, 0xc19bf174cf692694,
      0xe49b69c19ef14ad2, 0xefbe4786384f25e3, 0x0fc19dc68b8cd5b5, 0x240ca1cc77ac9c65,
      0x2de92c6f592b0275, 0x4a7484aa6ea6e483, 0x5cb0a9dcbd41fbd4, 0x76f988da831153b5,
      0x983e5152ee66dfab, 0xa831c66d2db43210, 0xb00327c898fb213f, 0xbf597fc7beef0ee4,
      0xc6e00bf33da88fc2, 0xd5a79147930aa725, 0x06ca6351e003826f, 0x142929670a0e6e70,
      0x27b70a8546d22ffc, 0x2e1b21385c26c926, 0x4d2c6dfc5ac42aed, 0x53380d139d95b3df,
      0x650a73548baf63de, 0x766a0abb3c77b2a8, 0x81c2c92e47edaee6, 0x92722c851482353b,
      0xa2bfe8a14cf10364, 0xa81a664bbc423001, 0xc24b8b70d0f89791, 0xc76c51a30654be30,
      0xd192e819d6ef5218, 0xd69906245565a910, 0xf40e35855771202a, 0x106aa07032bbd1b8,
      0x19a4c116b8d2d0c8, 0x1e376c085141ab53, 0x2748774cdf8eeb99, 0x34b0bcb5e19b48a8,
      0x391c0cb3c5c95a63, 0x4ed8aa4ae3418acb, 0x5b9cca4f7763e373, 0x682e6ff3d6b2b8a3,
      0x748f82ee5defb2fc, 0x78a5636f43172f60, 0x84c87814a1f0ab72, 0x8cc702081a6439ec,
      0x90befffa23631e28, 0xa4506cebde82bde9, 0xbef9a3f7b2c67915, 0xc67178f2e372532b,
      0xca273eceea26619c, 0xd186b8c721c0c207, 0xeada7dd6cde0eb1e, 0xf57d4f7fee6ed178,
      0x06f067aa72176fba, 0x0a637dc5a2c898a6, 0x113f9804bef90dae, 0x1b710b35131c471b,
      0x28db77f523047d84, 0x32caab7b40c72493, 0x3c9ebe0a15c9bebc, 0x431d67c49c100d4c,
      0x4cc5d4becb3e42b6, 0x597f299cfc657e2a, 0x5fcb6fab3ad6faec, 0x6c44198c4a475817]
  sum0 := (28, 34, 39)
  sum1 := (14, 18, 41)
  small0 := (1, 8, 7)
  small1 := (19, 61, 6)

/-- The SHA-256 digest of a message. -/
def sha256 (message : Bytes) : Bytes :=
  Sha2.variant256.digest message

/-- The SHA-512 digest of a message. -/
def sha512 (message : Bytes) : Bytes :=
  Sha2.variant512.digest message

@[simp] theorem length_sha256 (message : Bytes) : (sha256 message).length = 32 :=
  Sha2.length_digest _ _

end PeerIdentity
