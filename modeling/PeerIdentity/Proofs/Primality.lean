import Mathlib.Data.List.Prime
import Mathlib.NumberTheory.LucasPrimality
import Mathlib.Tactic.NormNum.Prime
import PeerIdentity.Curve.Named
import PeerIdentity.Proofs.Modular

/-!
# Prime numbers

The test of Lucas proves a number `n` prime from the prime factors of `n - 1` and a number whose
powers run through all residues. The powers are those of `powMod`, so the test is a computation.

* `powMod_eq`, `cast_powMod`: `powMod` computes powers, and stands for those of residues;
* `LucasCertificate.prime`: the test of Lucas;
* `prime_of_chain`: a list of certificates, each of which needs only primes certified before;
* `Curve.prime_secp256k1`: the field of secp256k1 has prime order;
* `Curve.prime_order_secp256k1`: so has its base point.
-/

namespace PeerIdentity

/-! ## Powers -/

/-- Powers by squaring are the remainders of powers. -/
theorem powMod_eq (b e m : Nat) : powMod b e m = b ^ e % m := by
  refine foldBits_log2 (f := fun k => b ^ k % m) (fun k bit => ?_) e
  have hsquare : b ^ k % m * (b ^ k % m) % m = b ^ (2 * k) % m := by
    rw [← Nat.mul_mod, ← pow_add, two_mul]
  cases bit with
  | false => simpa using hsquare
  | true => simp [hsquare, pow_succ, Nat.mod_mul_mod]

theorem powMod_lt {m : Nat} (hm : 0 < m) (b e : Nat) : powMod b e m < m := by
  rw [powMod_eq]
  exact Nat.mod_lt _ hm

/-- As a residue, a power modulo `m` is the power. -/
theorem cast_powMod (b e m : Nat) : (powMod b e m : ZMod m) = (b : ZMod m) ^ e := by
  rw [powMod_eq, ZMod.natCast_mod, Nat.cast_pow]

/-! ## The test of Lucas -/

/-- A number, a base, and the prime factors of the number before it, each as often as it divides. -/
structure LucasCertificate where
  n : Nat
  base : Nat
  factors : List Nat

namespace LucasCertificate

/-- Whether the factors are among known primes and the order of the base is `n - 1`. -/
def isValid (primes : List Nat) (c : LucasCertificate) : Bool :=
  2 ≤ c.n && c.factors.all (primes.contains ·) && c.factors.prod == c.n - 1 &&
    powMod c.base (c.n - 1) c.n == 1 &&
    c.factors.all fun q => powMod c.base ((c.n - 1) / q) c.n != 1

/-- A power is 1 as a residue exactly if its remainder is 1. -/
theorem cast_pow_eq_one_iff {n : Nat} (hn : 2 ≤ n) (a e : Nat) :
    (a : ZMod n) ^ e = 1 ↔ powMod a e n = 1 := by
  rw [powMod_eq, ← Nat.cast_pow, ← Nat.cast_one, ZMod.natCast_eq_natCast_iff',
    Nat.mod_eq_of_lt (by omega : 1 < n)]

/-- A number with a valid certificate is prime, by the order of the base. -/
theorem prime {primes : List Nat} {c : LucasCertificate} (hprimes : ∀ q ∈ primes, q.Prime)
    (h : c.isValid primes) : c.n.Prime := by
  simp only [isValid, Bool.and_eq_true, decide_eq_true_eq, List.all_eq_true, List.contains_iff_mem,
    beq_iff_eq, bne_iff_ne] at h
  obtain ⟨⟨⟨⟨hn, hfactors⟩, hprod⟩, hone⟩, hne⟩ := h
  refine lucas_primality c.n (c.base : ZMod c.n) ((cast_pow_eq_one_iff hn _ _).mpr hone) ?_
  intro q hq hdvd
  -- A prime that divides the product of the factors is one of them.
  rw [← hprod, hq.prime.dvd_prod_iff] at hdvd
  obtain ⟨f, hf, hqf⟩ := hdvd
  obtain rfl := (Nat.prime_dvd_prime_iff_eq hq (hprimes f (hfactors f hf))).mp hqf
  rw [Ne, cast_pow_eq_one_iff hn]
  exact hne q hf

end LucasCertificate

/-- Whether each certificate of a list is valid with the known primes and the numbers certified
before it. -/
def isChain : (primes : List Nat) → List LucasCertificate → Bool
  | _, [] => true
  | primes, c :: cs => c.isValid primes && isChain (c.n :: primes) cs

/-- Every number of a chain of certificates is prime. -/
theorem prime_of_chain {primes : List Nat} {cs : List LucasCertificate}
    (hprimes : ∀ q ∈ primes, q.Prime) (h : isChain primes cs) : ∀ c ∈ cs, c.n.Prime := by
  induction cs generalizing primes with
  | nil => simp
  | cons c cs ih =>
    rw [isChain, Bool.and_eq_true] at h
    have hc := LucasCertificate.prime hprimes h.1
    have hcs := ih (List.forall_mem_cons.mpr ⟨hc, hprimes⟩) h.2
    exact List.forall_mem_cons.mpr ⟨hc, hcs⟩

/-! ## Fields -/

namespace Curve

/-- Certificates that end in the prime of secp256k1. -/
def certificatesSecp256k1 : List LucasCertificate :=
  [⟨1206781, 10, [2, 2, 3, 5, 20113]⟩,
    ⟨7240687, 3, [2, 3, 1206781]⟩,
    ⟨13331831, 13, [2, 5, 971, 1373]⟩,
    ⟨107590001, 3, [2, 2, 2, 2, 5, 5, 5, 5, 7, 29, 53]⟩,
    ⟨173378833005251801, 6, [2, 2, 2, 5, 5, 2621, 24809, 13331831]⟩,
    ⟨22149492674086928081353, 5, [2, 2, 2, 3, 5323, 173378833005251801]⟩,
    ⟨132896956044521568488119, 6, [2, 3, 22149492674086928081353]⟩,
    ⟨255515944373312847190720520512484175977, 3,
      [2, 2, 2, 7, 7, 11, 1627, 2657, 4423, 41201, 96557, 7240687, 107590001]⟩,
    ⟨205115282021455665897114700593932402728804164701536103180137503955397371, 10,
      [2, 3, 5, 29, 29, 31, 7723, 132896956044521568488119,
        255515944373312847190720520512484175977]⟩,
    ⟨secp256k1.p, 3,
      [2, 3, 7, 13441, 205115282021455665897114700593932402728804164701536103180137503955397371]⟩]

/-- The field of secp256k1 has prime order. -/
theorem prime_secp256k1 : secp256k1.p.Prime := by
  have hsmall : ∀ q ∈ [2, 3, 5, 7, 11, 29, 31, 53, 971, 1373, 1627, 2621, 2657, 4423, 5323, 7723,
      13441, 20113, 24809, 41201, 96557], q.Prime := by
    norm_num
  have hchain := prime_of_chain hsmall (by decide +kernel : isChain _ certificatesSecp256k1 = true)
  exact hchain _ (List.getLast_mem (by decide : certificatesSecp256k1 ≠ []))

/-- Certificates that end in the order of the base point of secp256k1. -/
def certificatesOrderSecp256k1 : List LucasCertificate :=
  [⟨1627771, 3, [2, 3, 5, 29, 1871]⟩,
    ⟨4681609, 23, [2, 2, 2, 3, 97, 2011]⟩,
    ⟨44706919, 6, [2, 3, 797, 9349]⟩,
    ⟨545358713, 5, [2, 2, 2, 41, 59, 28181]⟩,
    ⟨297159362677, 2, [2, 2, 3, 3, 11, 461, 1627771]⟩,
    ⟨107361793816595537, 3, [2, 2, 2, 2, 16699, 85831, 4681609]⟩,
    ⟨174723607534414371449, 3, [2, 2, 2, 17, 59, 4051, 120233, 44706919]⟩,
    ⟨29047611873442575647497758179, 2, [2, 293, 305873, 545358713, 297159362677]⟩,
    ⟨341948486974166000522343609283189, 2, [2, 2, 3, 3, 3, 109, 29047611873442575647497758179]⟩,
    ⟨secp256k1.order, 7,
      [2, 2, 2, 2, 2, 2, 3, 149, 631, 107361793816595537, 174723607534414371449,
        341948486974166000522343609283189]⟩]

/-- The base point of secp256k1 has prime order. -/
theorem prime_order_secp256k1 : secp256k1.order.Prime := by
  have hsmall : ∀ q ∈ [2, 3, 5, 11, 17, 29, 41, 59, 97, 109, 149, 293, 461, 631, 797, 1871, 2011,
      4051, 9349, 16699, 28181, 85831, 120233, 305873], q.Prime := by
    norm_num
  have hchain :=
    prime_of_chain hsmall (by decide +kernel : isChain _ certificatesOrderSecp256k1 = true)
  exact hchain _ (List.getLast_mem (by decide : certificatesOrderSecp256k1 ≠ []))

end Curve

end PeerIdentity
