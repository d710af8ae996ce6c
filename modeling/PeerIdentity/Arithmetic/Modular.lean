/-!
# Modular arithmetic

Powers and inverses modulo a number.

* `foldBits`: a fold over the binary digits of a number, most significant first, which is the
  shape of both square-and-multiply and double-and-add;
* `powMod`: `b ^ e` modulo `m`;
* `inverse?`: the inverse of a number modulo `m`, by the extended Euclidean algorithm.
-/

namespace PeerIdentity

/-- Folds `step` over the `count` lowest binary digits of `n`, most significant first. -/
def foldBits {α : Type} (step : α → Bool → α) (n : Nat) : (count : Nat) → α → α
  | 0, a => a
  | count + 1, a => foldBits step n count (step a (n.testBit count))

/-- `b ^ e` modulo `m`, by squaring for each binary digit of `e` and multiplying for each one. -/
def powMod (b e m : Nat) : Nat :=
  foldBits (fun a bit => if bit then a * a % m * b % m else a * a % m) e (e.log2 + 1) (1 % m)

/-- `a - b` modulo `m`. -/
def subMod (a b m : Nat) : Nat :=
  (a + (m - b % m)) % m

/-- The extended Euclidean algorithm on remainders `r0`, `r1` whose cofactors are `t0`, `t1` in
absolute value. The signs of the cofactors alternate, and `negative` is the sign of `t0`. The
result is the greatest common divisor with its cofactor and that cofactor's sign. -/
def euclid (r0 t0 r1 t1 : Nat) (negative : Bool) : Nat × Nat × Bool :=
  if _h : r1 = 0 then (r0, t0, negative)
  else euclid r1 t1 (r0 % r1) (t0 + r0 / r1 * t1) (!negative)
termination_by r1
decreasing_by exact Nat.mod_lt _ (Nat.pos_of_ne_zero _h)

/-- The inverse of `a` modulo `m`, below `m`; there is none unless `a` and `m` are coprime. -/
def inverse? (a m : Nat) : Option Nat :=
  match euclid m 0 (a % m) 1 true with
  | (1, t, negative) => some (if negative then subMod 0 t m else t % m)
  | _ => none

/-- `a / b` modulo the prime `p`, and 0 when `b` is divisible by `p`. -/
def divMod (a b p : Nat) : Nat :=
  match inverse? b p with
  | some i => a * i % p
  | none => 0

end PeerIdentity
