import PeerIdentity.Arithmetic.SquareRoot
import PeerIdentity.Bytes

/-!
# The twisted Edwards curve of Ed25519

Points of `-x² + y² = 1 + d x² y²` modulo `2 ^ 255 - 19`. The addition law is complete: one formula
covers every pair of points.

* `add`, `mul`: the group law and multiples;
* `encode`: the 32 bytes of a point, which are `y` and the parity of `x`;
* `decode?`: the point of 32 bytes, with `y` taken modulo the prime.
-/

namespace PeerIdentity.Edwards

/-- The prime `2 ^ 255 - 19`. -/
def prime : Nat :=
  0x7fffffffffffffffffffffffffffffffffffffffffffffffffffffffffffffed

/-- The order of the base point, `2 ^ 252 + 27742317777372353535851937790883648493`. -/
def order : Nat :=
  0x1000000000000000000000000000000014def9dea2f79cd65812631a5cf5d3ed

/-- The coefficient `-121665 / 121666`. -/
def coefficient : Nat :=
  0x52036cee2b6ffe738cc740797779e89800700a4d4141d8ab75eb4dca135978a3

/-- A point in affine coordinates. -/
structure Point where
  x : Nat
  y : Nat
  deriving DecidableEq, Repr

/-- The neutral point. -/
def Point.zero : Point :=
  ⟨0, 1⟩

/-- The base point. -/
def Point.base : Point where
  x := 0x216936d3cd6e53fec0a4e231fdd6dc5c692cc7609525a7b2c9562d608f25d51a
  y := 0x6666666666666666666666666666666666666666666666666666666666666658

/-- The opposite point. -/
def Point.neg (P : Point) : Point :=
  ⟨subMod 0 P.x prime, P.y⟩

/-- Addition. The two denominators `1 + t` and `1 - t` are inverted together. -/
def Point.add (P Q : Point) : Point :=
  let xx := P.x * Q.x % prime
  let yy := P.y * Q.y % prime
  let t := coefficient * (xx * yy % prime) % prime
  let u := 1 + t
  let v := subMod 1 t prime
  let i := divMod 1 (u * v) prime
  ⟨(P.x * Q.y + Q.x * P.y) % prime * (v * i % prime) % prime,
    (yy + xx) % prime * (u * i % prime) % prime⟩

/-- The multiple `k • P`, by doubling for each binary digit of `k` and adding for each one. -/
def Point.mul (k : Nat) (P : Point) : Point :=
  foldBits (fun Q bit => if bit then (Q.add Q).add P else Q.add Q) k (k.log2 + 1) Point.zero

/-- The 32 bytes of a point: `y`, least significant byte first, with the parity of `x` as highest
bit. -/
def Point.encode (P : Point) : Bytes :=
  Bytes.ofNatLE 32 (P.y + (P.x % 2) <<< 255)

/-- The square of the `x` over a given `y`, `(y² - 1) / (d y² + 1)`. -/
def squareOver (y : Nat) : Nat :=
  divMod (subMod (y * y) 1 prime) (coefficient * (y * y % prime) + 1) prime

/-- The point over `y` whose `x` has the given parity. The `x` that is zero serves for both. -/
def lift? (y : Nat) (odd : Bool) : Option Point :=
  (sqrtMod? (squareOver y) prime).map fun r =>
    ⟨if (r % 2 = 1) = odd then r else (prime - r) % prime, y⟩

/-- The point that 32 bytes write, with `y` taken modulo the prime. -/
def decode? (b : Bytes) : Option Point :=
  let n := Bytes.toNatLE b
  lift? (n % (1 <<< 255) % prime) (n.testBit 255)

end PeerIdentity.Edwards
