import PeerIdentity.Bytes
import PeerIdentity.MlDsa.Ring

/-!
# Packing

Polynomials with coefficients of few bits are written without gaps, the lowest bit first: the
coefficients and the bytes are digits of one number in two bases. Hints are written as the
positions of their bits, row by row in increasing order, zeros up to 75 bytes, and the number of
positions up to the end of each row.

* `pack`, `unpack`: coefficients of `width` bits;
* `packHint`, `unpackHint?`: hints; exactly what `packHint` writes is read.
-/

namespace PeerIdentity.MlDsa

/-- The number with given digits of `width` bits, the lowest first. -/
def ofDigits (width : Nat) : List Nat → Nat
  | [] => 0
  | d :: ds => d + ofDigits width ds <<< width

/-- The `count` lowest digits of `width` bits of a number. -/
def digits (width : Nat) : (count : Nat) → (n : Nat) → List Nat
  | 0, _ => []
  | count + 1, n => n % (1 <<< width) :: digits width count (n >>> width)

/-- The bytes of 256 coefficients of `width` bits. -/
def pack (width : Nat) (f : Poly) : Bytes :=
  Bytes.ofNatLE (32 * width) (ofDigits width f)

/-- The 256 coefficients of `width` bits that some bytes write. -/
def unpack (width : Nat) (b : Bytes) : Poly :=
  digits width 256 (Bytes.toNatLE b)

/-- The polynomials that `count` blocks write with `width` bits for each coefficient. -/
def unpackVec (width count : Nat) (b : Bytes) : PolyVec :=
  (Bytes.blocks (32 * width) count b).map (unpack width)

/-- The coefficients `top - x` modulo `q`, which packing uses for coefficients of both signs. -/
def reflectFrom (top : Nat) (f : Poly) : Poly :=
  f.map fun x => subMod top x q

/-! ## Hints -/

/-- The largest number of bits in a hint. -/
def omega : Nat :=
  75

/-- The positions of the bits in each row of a hint. -/
abbrev Hint := List (List Nat)

/-- The number of bits in a hint. -/
def Hint.weight (h : Hint) : Nat :=
  h.flatten.length

/-- The number of positions up to the end of each row, after `start` earlier ones. -/
def rowEnds (start : Nat) : Hint → List Nat
  | [] => []
  | row :: rows => (start + row.length) :: rowEnds (start + row.length) rows

/-- The bytes of a hint with at most 75 bits. -/
def packHint (h : Hint) : Bytes :=
  (h.flatten ++ List.replicate (omega - h.weight) 0 ++ rowEnds 0 h).map UInt8.ofNat

/-- Each position is larger than the one before. -/
def increasing : List Nat → Bool
  | x :: y :: rest => x < y && increasing (y :: rest)
  | _ => true

/-- Cuts the remaining positions into rows that end at the given counts; positions after the last
row must be zero. -/
def unpackRows? : (ends : List Nat) → (start : Nat) → (positions : List Nat) → Option Hint
  | [], _, rest => if rest.all (· == 0) then some [] else none
  | stop :: ends, start, positions =>
    let row := positions.take (stop - start)
    if start ≤ stop ∧ stop ≤ omega ∧ increasing row then
      (unpackRows? ends stop (positions.drop (stop - start))).map (row :: ·)
    else none

/-- The hint that 75 positions and one count for each row write. -/
def unpackHint? (b : Bytes) : Option Hint :=
  let values := b.map UInt8.toNat
  unpackRows? (values.drop omega) 0 (values.take omega)

end PeerIdentity.MlDsa
