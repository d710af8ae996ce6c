import PeerIdentity.Arithmetic.Modular

/-!
# Prime numbers

A number is taken for a prime when it passes the strong test to each of the bases 2, 3, 5, …, 89.
Every prime passes.

* `isStrongProbablePrime`: the strong test to one base;
* `isProbablePrime`: the test to all bases;
* `findPrime?`: the first of the odd numbers from a given one on that is taken for a prime.
-/

namespace PeerIdentity

/-- Whether one of `x`, `x²`, `x⁴`, …, after at most `count` squarings, is `-1` modulo `n`. -/
def squaresToMinusOne (n : Nat) : (count : Nat) → (x : Nat) → Bool
  | 0, x => x = n - 1
  | count + 1, x => x = n - 1 || squaresToMinusOne n count (x * x % n)

/-- The number of times that two divides `n`, counting at most `fuel`. -/
def twos : (fuel : Nat) → (n : Nat) → Nat
  | 0, _ => 0
  | fuel + 1, n => if n % 2 = 0 then twos fuel (n / 2) + 1 else 0

/-- The strong test of an odd number `n` to one base: with `n - 1 = q * 2 ^ s` and `q` odd, the
power `base ^ q` is 1 or becomes `-1` in fewer than `s` squarings. A base that `n` divides proves
nothing. -/
def isStrongProbablePrime (n base : Nat) : Bool :=
  let s := twos (n.log2 + 1) (n - 1)
  let x := powMod base ((n - 1) >>> s) n
  base % n = 0 || x = 1 || squaresToMinusOne n (s - 1) x

/-- The bases of the test. -/
def primeTestBases : List Nat :=
  [2, 3, 5, 7, 11, 13, 17, 19, 23, 29, 31, 37, 41, 43, 47, 53, 59, 61, 67, 71, 73, 79, 83, 89]

/-- Whether `n` is 2, or an odd number from 3 on that passes the strong test to every base. -/
def isProbablePrime (n : Nat) : Bool :=
  n = 2 || (n % 2 = 1 && 3 ≤ n && primeTestBases.all (isStrongProbablePrime n))

/-- The product of the odd numbers from 3 to 1999. A number that shares a factor with it is prime
only if it is small. -/
def smallFactors : Nat :=
  (List.range 999).foldl (fun n i => n * (2 * i + 3)) 1

/-- The first of `fuel` odd numbers from the odd number `n` on that shares no factor with small
numbers, is accepted, and is taken for a prime. -/
def findPrime? (accept : Nat → Bool) : (fuel : Nat) → (n : Nat) → Option Nat
  | 0, _ => none
  | fuel + 1, n =>
    if Nat.gcd n smallFactors = 1 && accept n && isProbablePrime n then some n
    else findPrime? accept fuel (n + 2)

end PeerIdentity
