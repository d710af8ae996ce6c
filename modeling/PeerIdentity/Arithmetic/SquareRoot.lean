import PeerIdentity.Arithmetic.Modular

/-!
# Square roots modulo a prime

For a prime `p` that is 3 modulo 4 the root of a square `a` is `a ^ ((p + 1) / 4)`. Otherwise the
algorithm of Tonelli and Shanks corrects `a ^ ((q + 1) / 2)`, where `p - 1 = q * 2 ^ s` with `q`
odd, by powers of a number that is no square.

* `sqrtMod?`: a root, when there is one.
-/

namespace PeerIdentity

/-- The odd part of a positive number and the exponent of two that was taken out. -/
def oddPart (n : Nat) : (fuel : Nat) → Nat × Nat
  | 0 => (n, 0)
  | fuel + 1 =>
    if n % 2 = 0 then
      let (q, s) := oddPart (n / 2) fuel
      (q, s + 1)
    else (n, 0)

/-- The least number of the first `fuel` from `z` on that is no square modulo the prime `p`. -/
def nonSquare (p : Nat) : (fuel : Nat) → (z : Nat) → Nat
  | 0, z => z
  | fuel + 1, z => if powMod z ((p - 1) / 2) p = p - 1 then z else nonSquare p fuel (z + 1)

/-- Corrects `r` until its square is `a`. Throughout, `r * r = a * t` modulo `p`, the order of `t`
divides `2 ^ k`, and the order of `c` is `2 ^ (k + 1)`. -/
def correctRoot (p : Nat) : (k : Nat) → (c t r : Nat) → Nat
  | 0, _, _, r => r
  | k + 1, c, t, r =>
    let c' := c * c % p
    if powMod t (1 <<< k) p = 1 then correctRoot p k c' t r
    else correctRoot p k c' (t * c' % p) (r * c % p)

/-- A number whose square is `a` modulo the prime `p`, if `a` is a square. -/
def rootCandidate (a p : Nat) : Nat :=
  if p % 4 = 3 then powMod a ((p + 1) / 4) p
  else
    let (q, s) := oddPart (p - 1) (p.log2 + 1)
    let c := powMod (nonSquare p 100 2) q p
    correctRoot p (s - 1) c (powMod a q p) (powMod a ((q + 1) / 2) p)

/-- A square root of `a` modulo the prime `p`. -/
def sqrtMod? (a p : Nat) : Option Nat :=
  let r := rootCandidate (a % p) p
  if r * r % p = a % p then some r else none

/-- The value of `sqrtMod?` is a root. -/
theorem mul_self_of_sqrtMod? {a p r : Nat} (h : sqrtMod? a p = some r) : r * r % p = a % p := by
  simp only [sqrtMod?] at h
  split at h
  · cases h; assumption
  · cases h

end PeerIdentity
