import PeerIdentity.Arithmetic.Modular

/-!
# The ring of ML-DSA

Polynomials with 256 coefficients modulo `q = 8380417`, up to multiples of `X ^ 256 + 1`. A
polynomial is the list of its coefficients, the constant one first. The number-theoretic transform
replaces a polynomial by its values at the 256 odd powers of 1753, so that products are taken
value by value. It splits a polynomial in halves: modulo `X ^ (2 n) - z ^ 2` it is known once it is
known modulo `X ^ n - z` and `X ^ n + z`.

* `Poly.transform`, `Poly.untransform`: the transform and its inverse;
* `Poly.add`, `Poly.sub`, `Poly.pointwise`: operations coefficient by coefficient;
* `norm`: the distance of a coefficient from zero.
-/

namespace PeerIdentity.MlDsa

/-- The modulus, `2 ^ 23 - 2 ^ 13 + 1`. -/
def q : Nat :=
  8380417

/-- The coefficients of a polynomial, each below `q`. -/
abbrev Poly := List Nat

/-- A vector of polynomials. -/
abbrev PolyVec := List Poly

/-- The distance of a residue from the nearest multiple of `q`. -/
def norm (x : Nat) : Nat :=
  min x (q - x)

namespace Poly

/-- The sum of two polynomials. -/
def add (f g : Poly) : Poly :=
  List.zipWith (fun x y => (x + y) % q) f g

/-- The difference of two polynomials. -/
def sub (f g : Poly) : Poly :=
  List.zipWith (fun x y => (x + (q - y)) % q) f g

/-- The product of two polynomials value by value. -/
def pointwise (f g : Poly) : Poly :=
  List.zipWith (fun x y => x * y % q) f g

/-- A multiple of a polynomial. -/
def scale (c : Nat) (f : Poly) : Poly :=
  f.map fun x => c * x % q

/-- The zero polynomial. -/
def zero : Poly :=
  List.replicate 256 0

/-- The eight lowest binary digits of a number in reverse order. -/
def reverseBits (n : Nat) : Nat :=
  (List.range 8).foldl (fun r i => 2 * r + n >>> i % 2) 0

/-- The multiplier of a node of the transform's binary tree. The root is node 1, and the halves of
node `m` are the nodes `2 m` and `2 m + 1`. -/
def multipliers : Array Nat :=
  ((List.range 256).map fun m => powMod 1753 (reverseBits m) q).toArray

/-- The inverses of the multipliers. -/
def inverseMultipliers : Array Nat :=
  multipliers.map fun z => powMod z (q - 2) q

/-- The transform of a polynomial of `2 ^ levels` coefficients at a node. -/
def transformAt : (levels : Nat) → (node : Nat) → Poly → Poly
  | 0, _, f => f
  | levels + 1, node, f =>
    let low := f.take (1 <<< levels)
    let high := scale (multipliers.getD node 0) (f.drop (1 <<< levels))
    -- The remainders modulo `X ^ n - z` and `X ^ n + z`, where `n = 2 ^ levels`.
    transformAt levels (2 * node) (add low high) ++
      transformAt levels (2 * node + 1) (sub low high)

/-- The polynomial of a transform at a node, `2 ^ levels` times over. -/
def untransformAt : (levels : Nat) → (node : Nat) → Poly → Poly
  | 0, _, f => f
  | levels + 1, node, f =>
    let plus := untransformAt levels (2 * node) (f.take (1 <<< levels))
    let minus := untransformAt levels (2 * node + 1) (f.drop (1 <<< levels))
    plus.add minus ++ scale (inverseMultipliers.getD node 0) (plus.sub minus)

/-- The values of a polynomial. -/
def transform (f : Poly) : Poly :=
  transformAt 8 1 f

/-- The polynomial with given values. The factor is the inverse of 256. -/
def untransform (f : Poly) : Poly :=
  scale 8347681 (untransformAt 8 1 f)

/-- Some coefficient is at least `bound` away from zero. -/
def reaches (bound : Nat) (f : Poly) : Bool :=
  f.any fun x => bound ≤ norm x

end Poly

namespace PolyVec

/-- The sum of two vectors. -/
def add (v w : PolyVec) : PolyVec :=
  List.zipWith Poly.add v w

/-- The difference of two vectors. -/
def sub (v w : PolyVec) : PolyVec :=
  List.zipWith Poly.sub v w

/-- The values of each polynomial. -/
def transform (v : PolyVec) : PolyVec :=
  v.map Poly.transform

/-- The polynomials with given values. -/
def untransform (v : PolyVec) : PolyVec :=
  v.map Poly.untransform

/-- The inner product of two vectors of values. -/
def inner (v w : PolyVec) : Poly :=
  (List.zipWith Poly.pointwise v w).foldl Poly.add Poly.zero

/-- The product of a matrix, given by its rows, and a vector of values. -/
def apply (rows : List PolyVec) (v : PolyVec) : PolyVec :=
  rows.map fun row => inner row v

/-- The product of a polynomial and each member of a vector, all given by their values, as
polynomials. -/
def times (c : Poly) (v : PolyVec) : PolyVec :=
  v.map fun f => (c.pointwise f).untransform

/-- Some coefficient is at least `bound` away from zero. -/
def reaches (bound : Nat) (v : PolyVec) : Bool :=
  v.any (Poly.reaches bound)

end PolyVec

end PeerIdentity.MlDsa
