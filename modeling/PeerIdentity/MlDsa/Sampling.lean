import PeerIdentity.Hash.Shake
import PeerIdentity.MlDsa.Packing

/-!
# Sampling

Pseudorandom polynomials from the output of SHAKE. Coefficients that do not fit are skipped, so the
number of blocks that a polynomial takes varies; after a bound that no output is known to reach the
samplers fill up with zeros.

* `uniform`: every coefficient below `q`, from SHAKE128;
* `small`: coefficients from -2 to 2, from SHAKE256;
* `mask`: coefficients in `(-γ₁, γ₁]`, from SHAKE256;
* `challenge`: 60 coefficients ±1 and zeros, from SHAKE256.
-/

namespace PeerIdentity.MlDsa

/-- Collects `need` values from the blocks of a sponge, each block read by `candidates`. -/
def collect (sponge : Sponge) (candidates : Bytes → List Nat) :
    (blocks : Nat) → (need : Nat) → Keccak.State → List Nat
  | 0, need, _ => List.replicate need 0
  | blocks + 1, need, s =>
    let found := (candidates (sponge.block s)).take need
    if found.length = need then found
    else found ++ collect sponge candidates blocks (need - found.length) s.permute

/-- The values below `q` among the triples of bytes, least significant byte first and without the
highest bit. -/
def uniformCandidates : Bytes → List Nat
  | a :: b :: c :: rest =>
    let v := a.toNat + 256 * b.toNat + 65536 * (c.toNat % 128)
    if v < q then v :: uniformCandidates rest else uniformCandidates rest
  | _ => []

/-- A polynomial of uniform values. -/
def uniform (seed : Bytes) : Poly :=
  collect Sponge.shake128 uniformCandidates 64 256 (Sponge.shake128.absorb seed)

/-- The value from -2 to 2 of a half byte below 15. -/
def smallCandidate (v : Nat) : List Nat :=
  if v < 15 then [subMod 2 (v % 5) q] else []

/-- The small values of the half bytes, the lower half of a byte first. -/
def smallCandidates (b : Bytes) : List Nat :=
  b.flatMap fun x => smallCandidate (x.toNat % 16) ++ smallCandidate (x.toNat / 16)

/-- A polynomial of small coefficients. -/
def small (seed : Bytes) : Poly :=
  collect Sponge.shake256 smallCandidates 64 256 (Sponge.shake256.absorb seed)

/-- The bound of the mask's coefficients. -/
def gamma1 : Nat :=
  1 <<< 19

/-- A polynomial of mask coefficients, written with 20 bits each. -/
def mask (seed : Bytes) : Poly :=
  reflectFrom gamma1 (unpack 20 (shake256 seed 640))

/-- Puts signs into a polynomial: for each index from `i` on, a byte that is at most the index
names the place of the next sign, and what was there moves to the index. -/
def placeSigns : (stream : Bytes) → (i : Nat) → (signs : Nat) → Poly → Poly
  | [], _, _, c => c
  | x :: stream, i, signs, c =>
    let j := x.toNat
    if 256 ≤ i then c
    else if j ≤ i then
      let sign := if signs % 2 = 1 then q - 1 else 1
      placeSigns stream (i + 1) (signs / 2) ((c.set i (c.getD j 0)).set j sign)
    else placeSigns stream i signs c

/-- The challenge polynomial of a commitment hash. -/
def challenge (seed : Bytes) : Poly :=
  let stream := Sponge.shake256.squeeze 8 (Sponge.shake256.absorb seed)
  placeSigns (stream.drop 8) 196 (Bytes.toNatLE (stream.take 8)) Poly.zero

end PeerIdentity.MlDsa
