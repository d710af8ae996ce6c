import PeerIdentity.Bytes

/-!
# SHAKE

The extendable-output functions SHAKE128 and SHAKE256: a sponge over the Keccak permutation of
1600 bits. The state is a square of lanes of 64 bits, kept as five rows of five.

* `State.permute`: the permutation, 24 rounds of the five step mappings;
* `Sponge.absorb`: the state after a message;
* `Sponge.block`: the output that one state yields; the next block is that of the permuted state;
* `shake256`: a prefix of the output of SHAKE256.
-/

namespace PeerIdentity.Keccak

/-! ## The permutation -/

/-- Five lanes, at `x = 0, …, 4`. -/
structure Row where
  (a b c d e : UInt64)

/-- Five rows, at `y = 0, …, 4`. -/
structure State where
  (r0 r1 r2 r3 r4 : Row)

/-- Rotation of a lane towards the high end. -/
@[inline] def rotate (x n : UInt64) : UInt64 :=
  x <<< n ||| x >>> (64 - n)

/-- The exclusive sum of two rows. -/
def Row.xor (r s : Row) : Row :=
  ⟨r.a ^^^ s.a, r.b ^^^ s.b, r.c ^^^ s.c, r.d ^^^ s.d, r.e ^^^ s.e⟩

/-- The exclusive sum of two states. -/
def State.xor (s t : State) : State :=
  ⟨s.r0.xor t.r0, s.r1.xor t.r1, s.r2.xor t.r2, s.r3.xor t.r3, s.r4.xor t.r4⟩

/-- The step `θ` adds to each lane the parities of two neighbouring columns. -/
def State.theta (s : State) : State :=
  let p := (((s.r0.xor s.r1).xor s.r2).xor s.r3).xor s.r4
  let d : Row := ⟨p.e ^^^ rotate p.b 1, p.a ^^^ rotate p.c 1, p.b ^^^ rotate p.d 1,
    p.c ^^^ rotate p.e 1, p.d ^^^ rotate p.a 1⟩
  ⟨s.r0.xor d, s.r1.xor d, s.r2.xor d, s.r3.xor d, s.r4.xor d⟩

/-- The step `ρ` rotates each lane by an amount of its own. -/
def State.rho (s : State) : State :=
  ⟨⟨s.r0.a, rotate s.r0.b 1, rotate s.r0.c 62, rotate s.r0.d 28, rotate s.r0.e 27⟩,
    ⟨rotate s.r1.a 36, rotate s.r1.b 44, rotate s.r1.c 6, rotate s.r1.d 55, rotate s.r1.e 20⟩,
    ⟨rotate s.r2.a 3, rotate s.r2.b 10, rotate s.r2.c 43, rotate s.r2.d 25, rotate s.r2.e 39⟩,
    ⟨rotate s.r3.a 41, rotate s.r3.b 45, rotate s.r3.c 15, rotate s.r3.d 21, rotate s.r3.e 8⟩,
    ⟨rotate s.r4.a 18, rotate s.r4.b 2, rotate s.r4.c 61, rotate s.r4.d 56, rotate s.r4.e 14⟩⟩

/-- The step `π` moves the lane at `(x, y)` to `(y, 2 x + 3 y)`. -/
def State.pi (s : State) : State :=
  ⟨⟨s.r0.a, s.r1.b, s.r2.c, s.r3.d, s.r4.e⟩,
    ⟨s.r0.d, s.r1.e, s.r2.a, s.r3.b, s.r4.c⟩,
    ⟨s.r0.b, s.r1.c, s.r2.d, s.r3.e, s.r4.a⟩,
    ⟨s.r0.e, s.r1.a, s.r2.b, s.r3.c, s.r4.d⟩,
    ⟨s.r0.c, s.r1.d, s.r2.e, s.r3.a, s.r4.b⟩⟩

/-- The step `χ` on a row adds to each lane a product of the next two. -/
def Row.chi (r : Row) : Row :=
  ⟨r.a ^^^ (~~~r.b &&& r.c), r.b ^^^ (~~~r.c &&& r.d), r.c ^^^ (~~~r.d &&& r.e),
    r.d ^^^ (~~~r.e &&& r.a), r.e ^^^ (~~~r.a &&& r.b)⟩

/-- One round: the steps `θ`, `ρ`, `π`, `χ`, and `ι` with its constant. -/
def State.round (s : State) (constant : UInt64) : State :=
  let t := s.theta.rho.pi
  let first := t.r0.chi
  ⟨{ first with a := first.a ^^^ constant }, t.r1.chi, t.r2.chi, t.r3.chi, t.r4.chi⟩

/-- The constants of the 24 rounds. -/
def roundConstants : List UInt64 :=
  [
    0x0000000000000001, 0x0000000000008082, 0x800000000000808a, 0x8000000080008000,
    0x000000000000808b, 0x0000000080000001, 0x8000000080008081, 0x8000000000008009,
    0x000000000000008a, 0x0000000000000088, 0x0000000080008009, 0x000000008000000a,
    0x000000008000808b, 0x800000000000008b, 0x8000000000008089, 0x8000000000008003,
    0x8000000000008002, 0x8000000000000080, 0x000000000000800a, 0x800000008000000a,
    0x8000000080008081, 0x8000000000008080, 0x0000000080000001, 0x8000000080008008]

/-- The permutation of the state. -/
def State.permute (s : State) : State :=
  roundConstants.foldl State.round s

/-! ## States as byte strings -/

/-- The lane that the first eight bytes write, least significant byte first. -/
def laneOf (b : Bytes) : UInt64 :=
  UInt64.ofNat (Bytes.toNatLE (b.take 8))

/-- The row that the first forty bytes write. -/
def Row.ofBytes (b : Bytes) : Row :=
  ⟨laneOf b, laneOf (b.drop 8), laneOf (b.drop 16), laneOf (b.drop 24), laneOf (b.drop 32)⟩

/-- The state that up to two hundred bytes write; missing bytes are zero. -/
def State.ofBytes (b : Bytes) : State :=
  ⟨Row.ofBytes b, Row.ofBytes (b.drop 40), Row.ofBytes (b.drop 80), Row.ofBytes (b.drop 120),
    Row.ofBytes (b.drop 160)⟩

/-- The forty bytes of a row. -/
def Row.toBytes (r : Row) : Bytes :=
  [r.a, r.b, r.c, r.d, r.e].flatMap fun lane => Bytes.ofNatLE 8 lane.toNat

/-- The two hundred bytes of a state. -/
def State.toBytes (s : State) : Bytes :=
  [s.r0, s.r1, s.r2, s.r3, s.r4].flatMap Row.toBytes

/-- The state of zeros. -/
def State.zero : State :=
  State.ofBytes []

end PeerIdentity.Keccak

namespace PeerIdentity

/-! ## The sponge -/

/-- A sponge takes in and gives out `rate` bytes between two permutations. -/
structure Sponge where
  rate : Nat

namespace Sponge

open Keccak

/-- SHAKE128 has a rate of 168 bytes. -/
def shake128 : Sponge := ⟨168⟩

/-- SHAKE256 has a rate of 136 bytes. -/
def shake256 : Sponge := ⟨136⟩

/-- The bytes that complete a message of `n` bytes to whole blocks: the bits 1111, a one bit, zeros,
and a last one bit. -/
def padding (sponge : Sponge) (n : Nat) : Bytes :=
  match sponge.rate - n % sponge.rate with
  | 0 | 1 => [0x9f]
  | k + 2 => 0x1f :: List.replicate k 0 ++ [0x80]

/-- The state after a message. -/
def absorb (sponge : Sponge) (message : Bytes) : State :=
  let padded := message ++ sponge.padding message.length
  (Bytes.blocks sponge.rate (padded.length / sponge.rate) padded).foldl
    (fun s block => (s.xor (State.ofBytes block)).permute) State.zero

/-- The block that a state yields. -/
def block (sponge : Sponge) (s : State) : Bytes :=
  s.toBytes.take sponge.rate

/-- The next `count` blocks. -/
def squeeze (sponge : Sponge) : (count : Nat) → State → Bytes
  | 0, _ => []
  | count + 1, s => sponge.block s ++ squeeze sponge count s.permute

/-- The first `n` bytes of the output for a message. -/
def output (sponge : Sponge) (message : Bytes) (n : Nat) : Bytes :=
  (sponge.squeeze ((n + sponge.rate - 1) / sponge.rate) (sponge.absorb message)).take n

end Sponge

/-- The first `n` bytes of SHAKE256 of a message. -/
def shake256 (message : Bytes) (n : Nat) : Bytes :=
  Sponge.shake256.output message n

end PeerIdentity
