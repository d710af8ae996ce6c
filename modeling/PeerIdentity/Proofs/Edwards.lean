import Mathlib.NumberTheory.LegendreSymbol.Basic
import PeerIdentity.Curve.Edwards
import PeerIdentity.Proofs.Bytes
import PeerIdentity.Proofs.SquareRoot

/-!
# Points of the twisted Edwards curve

The coefficient of the curve is no square, so the `x` over a `y` are the roots of one quotient, the
denominator of which is never zero. The standard decoding of 32 bytes, that of RFC 8032, section
5.1.3, gives back exactly the points from what they are written as. The decoding for signatures
finds the same points, and others besides: it takes `y` modulo the prime, and it does not mind the
sign of an `x` that is zero.

* `prime_prime`: the field has prime order;
* `denominator_ne_zero`: the quotient that the `x` are roots of exists for every `y`;
* `Point.IsOn`: the points of the curve;
* `decodeStrict?`, `decodeStrict?_eq_some_iff`: the standard decoding, and what it decodes;
* `decode?_encode`, `decode?_eq_none_iff`: the decoding for signatures finds every point, and fails
  only where there is none;
* `of_decodeStrict?_eq_none`: what it finds besides.
-/

namespace PeerIdentity.Edwards

/-! ## The field -/

/-- Certificates that end in the prime of the field. -/
def certificates : List LucasCertificate :=
  [⟨2773320623, 5, [2, 2437, 569003]⟩,
    ⟨72106336199, 7, [2, 13, 2773320623]⟩,
    ⟨8574133, 2, [2, 2, 3, 7, 103, 991]⟩,
    ⟨1919519569386763, 2, [2, 3, 7, 19, 47, 47, 127, 8574133]⟩,
    ⟨75445702479781427272750846543864801, 7,
      [2, 2, 2, 2, 2, 3, 3, 5, 5, 75707, 72106336199, 1919519569386763]⟩,
    ⟨31757755568855353, 10, [2, 2, 2, 3, 31, 107, 223, 4153, 430751]⟩,
    ⟨1923133, 2, [2, 2, 3, 43, 3727]⟩,
    ⟨74058212732561358302231226437062788676166966415465897661863160754340907, 2,
      [2, 3, 353, 57467, 132049, 1923133, 31757755568855353,
        75445702479781427272750846543864801]⟩,
    ⟨prime, 2, [2, 2, 3, 65147,
      74058212732561358302231226437062788676166966415465897661863160754340907]⟩]

/-- The number `2 ^ 255 - 19` is prime. -/
theorem prime_prime : prime.Prime := by
  have hsmall : ∀ q ∈ [2, 3, 5, 7, 13, 19, 31, 43, 47, 103, 107, 127, 223, 353, 991, 2437, 3727,
      4153, 57467, 65147, 75707, 132049, 430751, 569003], q.Prime := by
    norm_num
  have hchain := prime_of_chain hsmall (by decide +kernel : isChain _ certificates = true)
  exact hchain _ (List.getLast_mem (by decide : certificates ≠ []))

instance fact_prime : Fact prime.Prime :=
  ⟨prime_prime⟩

/-- Roots modulo the prime of the field are found. -/
theorem hasRoots_prime : HasRoots prime :=
  .inr (by decide +kernel)

/-- A residue is a number below the prime if a number stands for both. -/
theorem mod_eq_iff_cast {a n : Nat} (hn : n < prime) : a % prime = n ↔ (a : ZMod prime) = n := by
  rw [ZMod.natCast_eq_natCast_iff', Nat.mod_eq_of_lt hn]

/-- The coefficient of the curve is no square, which makes the addition law complete. -/
theorem not_isSquare_coefficient : ¬ IsSquare (coefficient : ZMod prime) := by
  have hne : (coefficient : ZMod prime) ≠ 0 := by
    rw [Ne, ZMod.natCast_eq_zero_iff]
    decide +kernel
  rw [ZMod.euler_criterion prime hne, LucasCertificate.cast_pow_eq_one_iff prime_prime.two_le]
  decide +kernel

/-- A root of -1, which is a power of 2. -/
def imaginary : Nat :=
  powMod 2 ((prime - 1) / 4) prime

/-- The power of 2 is a root of -1. -/
theorem imaginary_mul_self : (imaginary : ZMod prime) * imaginary = -1 := by
  have hsquare : imaginary * imaginary % prime = prime - 1 := by decide +kernel
  rw [mod_eq_iff_cast (Nat.sub_lt prime_prime.pos one_pos), Nat.cast_mul,
    Nat.cast_sub prime_prime.one_le, ZMod.natCast_self, zero_sub, Nat.cast_one] at hsquare
  exact hsquare

/-- If the denominator were zero, then the coefficient would be the square of a root of -1 that is
divided by `y`. -/
theorem denominator_ne_zero (y : ZMod prime) : coefficient * y ^ 2 + 1 ≠ 0 := by
  intro h
  have hy : y ≠ 0 := by
    rintro rfl
    simp at h
  refine not_isSquare_coefficient ⟨imaginary / y, ?_⟩
  rw [div_mul_div_comm, imaginary_mul_self, eq_div_iff (mul_self_ne_zero.mpr hy)]
  linear_combination h

/-! ## Points -/

/-- The points of the curve, with coordinates below the prime. The equation has `x²` on the other
side, where it is not negative. -/
def Point.IsOn (P : Point) : Prop :=
  P.x < prime ∧ P.y < prime ∧
    P.y * P.y % prime = (1 + P.x * P.x + coefficient * (P.x * P.x) * (P.y * P.y)) % prime

instance (P : Point) : Decidable P.IsOn :=
  inferInstanceAs (Decidable (_ ∧ _ ∧ _))

variable {P : Point} {b : Bytes} {x y : Nat}

/-- The numerator of the square of the `x` over a given `y`. -/
def numerator (y : Nat) : Nat :=
  subMod (y * y) 1 prime

/-- The denominator of the square of the `x` over a given `y`. -/
def denominator (y : Nat) : Nat :=
  (coefficient * (y * y % prime) + 1) % prime

/-- As a residue, the numerator is `y² - 1`. -/
theorem cast_numerator (y : Nat) : (numerator y : ZMod prime) = y ^ 2 - 1 := by
  rw [numerator, cast_subMod prime_prime.pos, Nat.cast_mul, Nat.cast_one, pow_two]

/-- As a residue, the denominator is `d y² + 1`. -/
theorem cast_denominator (y : Nat) : (denominator y : ZMod prime) = coefficient * y ^ 2 + 1 := by
  rw [denominator, ZMod.natCast_mod, Nat.cast_add, Nat.cast_mul, ZMod.natCast_mod, Nat.cast_mul,
    Nat.cast_one, pow_two]

/-- The denominator is never zero, because -1 is a square and the coefficient is none. -/
theorem cast_denominator_ne_zero (y : Nat) : (denominator y : ZMod prime) ≠ 0 := by
  rw [cast_denominator]
  exact denominator_ne_zero y

/-- Over `y` lie the points whose `x` is a root of the quotient. -/
theorem isOn_iff : P.IsOn ↔ P.x < prime ∧ P.y < prime ∧
    (denominator P.y : ZMod prime) * (P.x * P.x) = numerator P.y := by
  refine and_congr_right fun _ => and_congr_right fun _ => ?_
  rw [← ZMod.natCast_eq_natCast_iff', cast_denominator, cast_numerator]
  push_cast
  constructor
  · intro h
    linear_combination -h
  · intro h
    linear_combination -h

/-- As a residue, the square over `y` is the numerator divided by the denominator. -/
theorem cast_squareOver (y : Nat) :
    (squareOver y : ZMod prime) = numerator y / denominator y := by
  rw [squareOver, cast_divMod, numerator, denominator, ZMod.natCast_mod]

/-- A point is on the curve exactly if its `x` is a root of the square over its `y`. -/
theorem isOn_iff_squareOver : P.IsOn ↔ P.x < prime ∧ P.y < prime ∧
    P.x * P.x % prime = squareOver P.y % prime := by
  rw [isOn_iff, ← ZMod.natCast_eq_natCast_iff', cast_squareOver,
    eq_div_iff (cast_denominator_ne_zero _), Nat.cast_mul, mul_comm]

/-! ## The decoding for signatures -/

/-- The point over `y` whose `x` has the parity of the `x` of a point is that point. -/
theorem lift?_of_isOn (h : P.IsOn) : lift? P.y (P.x % 2 = 1) = some P := by
  obtain ⟨hx, -, hsquare⟩ := isOn_iff_squareOver.mp h
  obtain ⟨r, hr, hrlt, hsign⟩ := sqrtMod?_of_square prime_prime hasRoots_prime hx hsquare
  have hodd : prime % 2 = 1 := by decide
  simp only [lift?, hr, Option.map_some, ite_parity_of_sign hodd hrlt hx hsign]

/-- Every point that is found over a `y` is on the curve. -/
theorem isOn_of_lift? {odd : Bool} (hy : y < prime) (h : lift? y odd = some P) :
    P.IsOn ∧ P.y = y := by
  obtain ⟨r, hr, rfl⟩ := Option.map_eq_some_iff.mp h
  have hroot := mul_self_of_sqrtMod? hr
  have hrlt := lt_of_sqrtMod? prime_prime hr
  refine ⟨isOn_iff_squareOver.mpr ⟨?_, hy, ?_⟩, rfl⟩
  · dsimp only
    split
    · exact hrlt
    · exact Nat.mod_lt _ prime_prime.pos
  · dsimp only
    split
    · exact hroot
    -- The opposite of a root has the same square.
    · rw [← hroot, ← ZMod.natCast_eq_natCast_iff', Nat.cast_mul, Nat.cast_mul, ZMod.natCast_mod,
        Nat.cast_sub hrlt.le, ZMod.natCast_self]
      ring

/-- A point that is found has the parity that was asked for, unless its `x` is zero. -/
theorem parity_of_lift? {odd : Bool} (h : lift? y odd = some P) (hx : P.x ≠ 0) :
    decide (P.x % 2 = 1) = odd := by
  obtain ⟨r, hr, rfl⟩ := Option.map_eq_some_iff.mp h
  have hrlt := lt_of_sqrtMod? prime_prime hr
  dsimp only at hx ⊢
  split
  next hparity => exact decide_odd_of_eq hparity
  next hparity =>
    rw [if_neg hparity] at hx
    have hpos : 0 < r := by
      refine Nat.pos_of_ne_zero ?_
      rintro rfl
      exact hx (Nat.mod_self _)
    rw [Nat.mod_eq_of_lt (Nat.sub_lt prime_prime.pos hpos)]
    exact decide_odd_opposite (by decide) hrlt hparity

/-- The `y` of 32 bytes, without the highest bit. -/
def writtenY (b : Bytes) : Nat :=
  Bytes.toNatLE b % 2 ^ 255

/-- The highest bit of 32 bytes. -/
def writtenSign (b : Bytes) : Bool :=
  (Bytes.toNatLE b).testBit 255

/-- Decoding reduces the written `y` and lifts it to the root of the written sign. -/
theorem decode?_eq (b : Bytes) : decode? b = lift? (writtenY b % prime) (writtenSign b) := by
  rw [decode?, Nat.one_shiftLeft]
  rfl

/-- The number that a point is written as. -/
theorem toNatLE_encode (hy : P.y < prime) :
    Bytes.toNatLE P.encode = 2 ^ 255 * (P.x % 2) + P.y := by
  have hprime : prime < 2 ^ 255 := by decide
  have hpow : (256 : Nat) ^ 32 = 2 ^ 256 := by norm_num
  have hsign := Nat.mod_lt P.x two_pos
  rw [Point.encode, Nat.shiftLeft_eq, Bytes.toNatLE_ofNatLE (by omega)]
  omega

/-- The `y` of a point is what its encoding writes below the highest bit. -/
theorem writtenY_encode (hy : P.y < prime) : writtenY P.encode = P.y := by
  have hprime : prime < 2 ^ 255 := by decide
  rw [writtenY, toNatLE_encode hy, Nat.mul_add_mod, Nat.mod_eq_of_lt (hy.trans hprime)]

/-- The parity of the `x` of a point is the highest bit of its encoding. -/
theorem writtenSign_encode (hy : P.y < prime) : writtenSign P.encode = decide (P.x % 2 = 1) := by
  have hprime : prime < 2 ^ 255 := by decide
  rw [writtenSign, toNatLE_encode hy, Nat.testBit_eq_decide_div_mod_eq,
    Nat.mul_add_div (by decide), Nat.div_eq_of_lt (hy.trans hprime), Nat.add_zero, Nat.mod_mod]

/-- 32 bytes are written by their `y` and their highest bit. -/
theorem encode_of_written (hlen : b.length = 32) (hy : P.y = writtenY b)
    (hx : decide (P.x % 2 = 1) = writtenSign b) : P.encode = b := by
  have hlt := Bytes.toNatLE_lt b
  have hpow : (256 : Nat) ^ 32 = 2 ^ 255 * 2 := by norm_num
  rw [hlen, hpow] at hlt
  have hdigit : Bytes.toNatLE b / 2 ^ 255 = P.x % 2 := by
    have hhalf := Nat.div_lt_of_lt_mul hlt
    rw [writtenSign, Nat.testBit_eq_decide_div_mod_eq, decide_eq_decide] at hx
    omega
  have hnumber : P.y + (P.x % 2) <<< 255 = Bytes.toNatLE b := by
    rw [hy, writtenY, ← hdigit, Nat.shiftLeft_eq, mul_comm, Nat.mod_add_div]
  rw [Point.encode, hnumber, ← hlen, Bytes.ofNatLE_toNatLE]

/-- The decoding for signatures finds every point of the curve. -/
theorem decode?_encode (h : P.IsOn) : decode? P.encode = some P := by
  rw [decode?_eq, writtenY_encode h.2.1, writtenSign_encode h.2.1, Nat.mod_eq_of_lt h.2.1]
  exact lift?_of_isOn h

/-- The decoding for signatures fails only where there is no point over the `y` modulo the prime. -/
theorem decode?_eq_none_iff :
    decode? b = none ↔ ∀ P : Point, P.IsOn → P.y ≠ writtenY b % prime := by
  rw [decode?_eq]
  constructor
  · intro h P hP hy
    obtain ⟨hx, -, hsquare⟩ := isOn_iff_squareOver.mp hP
    obtain ⟨r, hr, -⟩ := sqrtMod?_of_square prime_prime hasRoots_prime hx hsquare
    rw [lift?, Option.map_eq_none_iff, ← hy, hr] at h
    cases h
  · intro h
    refine Option.eq_none_iff_forall_ne_some.mpr fun P hP => ?_
    obtain ⟨hon, hy⟩ := isOn_of_lift? (Nat.mod_lt _ prime_prime.pos) hP
    exact h P hon hy

/-! ## The standard decoding -/

/-- A root of `u / v`, if there is one: the power that is a root of it or of its opposite, and in
the latter case a root of -1 as a further factor. -/
def ratioRoot? (u v : Nat) : Option Nat :=
  let x := u * v ^ 3 * powMod (u * v ^ 7) ((prime - 5) / 8) prime % prime
  if v * (x * x) % prime = u then some x
  else if v * (x * x) % prime = (prime - u) % prime then
    some (x * imaginary % prime)
  else none

/-- Of a root and its opposite, the one of a given parity. A root that is zero is not odd. -/
def rootOfParity? (odd : Bool) (r : Nat) : Option Nat :=
  if r = 0 ∧ odd then none
  else if (r % 2 = 1) = odd then some r
  else some (prime - r)

/-- The `x` over `y` of a given parity. -/
def recoverX? (y : Nat) (odd : Bool) : Option Nat :=
  (ratioRoot? (numerator y) (denominator y)).bind (rootOfParity? odd)

/-- The standard decoding of a point: 32 bytes, the `y` of which is below the prime. -/
def decodeStrict? (b : Bytes) : Option Point :=
  if b.length = 32 ∧ writtenY b < prime then
    (recoverX? (writtenY b) (writtenSign b)).map fun x => ⟨x, writtenY b⟩
  else none

/-- The first candidate is a root of the quotient but for a factor. -/
theorem mul_candidate (u v : ZMod prime) :
    v * ((u * v ^ 3 * (u * v ^ 7) ^ ((prime - 5) / 8)) *
      (u * v ^ 3 * (u * v ^ 7) ^ ((prime - 5) / 8))) = u * (u * v ^ 7) ^ ((prime - 1) / 4) := by
  have hexponent : (prime - 1) / 4 = (prime - 5) / 8 + (prime - 5) / 8 + 1 := by decide
  rw [hexponent, pow_succ, pow_add]
  ring

/-- For a quotient that is a square, the square of the factor is 1. -/
theorem mul_factor_of_square {u v r : ZMod prime} (hv : v ≠ 0) (h : v * (r * r) = u) :
    u * (u * v ^ 7) ^ ((prime - 1) / 4) = u ∨ u * (u * v ^ 7) ^ ((prime - 1) / 4) = -u := by
  rcases eq_or_ne r 0 with rfl | hr
  · obtain rfl : u = 0 := by rw [← h, mul_zero, mul_zero]
    simp
  · have hexponent : 2 * ((prime - 1) / 4 + (prime - 1) / 4) = prime - 1 := by decide
    -- The factor squared is the power of a residue to the order of the units, which is 1.
    have hfactor : (u * v ^ 7) ^ ((prime - 1) / 4) * (u * v ^ 7) ^ ((prime - 1) / 4) = 1 := by
      have hsquare : u * v ^ 7 = (r * v ^ 4) ^ 2 := by rw [← h]; ring
      rw [← pow_add, hsquare, ← pow_mul, hexponent,
        ZMod.pow_card_sub_one_eq_one (mul_ne_zero hr (pow_ne_zero 4 hv))]
    rcases mul_self_eq_one_iff.mp hfactor with hone | hneg
    · exact .inl (by rw [hone, mul_one])
    · exact .inr (by rw [hneg, mul_neg_one])

section Ratio

variable {u v : Nat} (hu : u < prime)
include hu

/-- What is found as a root of the quotient is one. -/
theorem mul_self_of_ratioRoot? {r : Nat} (h : ratioRoot? u v = some r) :
    r < prime ∧ (v : ZMod prime) * (r * r) = u := by
  rw [ratioRoot?] at h
  generalize hx : u * v ^ 3 * powMod (u * v ^ 7) ((prime - 5) / 8) prime % prime = x at h
  have hxlt : x < prime := hx ▸ Nat.mod_lt _ prime_prime.pos
  split at h
  next hroot =>
    cases h
    rw [mod_eq_iff_cast hu, Nat.cast_mul, Nat.cast_mul] at hroot
    exact ⟨hxlt, hroot⟩
  next =>
    split at h
    next hopposite =>
      obtain rfl := Option.some.inj h
      rw [← ZMod.natCast_eq_natCast_iff', Nat.cast_sub hu.le, ZMod.natCast_self, zero_sub,
        Nat.cast_mul, Nat.cast_mul] at hopposite
      refine ⟨Nat.mod_lt _ prime_prime.pos, ?_⟩
      rw [ZMod.natCast_mod, Nat.cast_mul]
      -- The further factor is a root of -1, which mends the sign of the square.
      linear_combination -hopposite + (v : ZMod prime) * (x * x) * imaginary_mul_self
    next => cases h

/-- A quotient that has a root has one that is found. -/
theorem exists_ratioRoot? (hv : (v : ZMod prime) ≠ 0) {r : ZMod prime}
    (h : (v : ZMod prime) * (r * r) = u) : ∃ r, ratioRoot? u v = some r := by
  rw [ratioRoot?]
  generalize hx : u * v ^ 3 * powMod (u * v ^ 7) ((prime - 5) / 8) prime % prime = x
  have hxcast : (x : ZMod prime) = u * v ^ 3 * (u * v ^ 7) ^ ((prime - 5) / 8) := by
    rw [← hx, ZMod.natCast_mod, Nat.cast_mul, cast_powMod]
    simp only [Nat.cast_mul, Nat.cast_pow]
  have hcast : (v : ZMod prime) * (x * x) = u * (u * v ^ 7) ^ ((prime - 1) / 4) := by
    rw [hxcast, mul_candidate]
  by_cases hroot : v * (x * x) % prime = u
  · exact ⟨x, if_pos hroot⟩
  -- If the candidate is no root, then its square is the opposite of what it should be.
  · rw [if_neg hroot]
    rw [mod_eq_iff_cast hu, Nat.cast_mul, Nat.cast_mul, hcast] at hroot
    have hneg := (mul_factor_of_square hv h).resolve_left hroot
    have hopposite : v * (x * x) % prime = (prime - u) % prime := by
      rw [← ZMod.natCast_eq_natCast_iff', Nat.cast_sub hu.le, ZMod.natCast_self, zero_sub,
        Nat.cast_mul, Nat.cast_mul, hcast, hneg]
    exact ⟨_, if_pos hopposite⟩

end Ratio

/-- What is chosen is the root or its opposite, and has the parity. -/
theorem rootOfParity?_eq_some {odd : Bool} {r : Nat} (hr : r < prime)
    (h : rootOfParity? odd r = some x) :
    x < prime ∧ (x : ZMod prime) * x = r * r ∧ decide (x % 2 = 1) = odd := by
  unfold rootOfParity? at h
  split at h
  next => cases h
  next hzero =>
    split at h
    next hparity =>
      obtain rfl := Option.some.inj h
      exact ⟨hr, rfl, decide_odd_of_eq hparity⟩
    next hparity =>
      obtain rfl := Option.some.inj h
      -- A root that is zero is even, and it was refused where an odd one is asked for.
      have hpos : 0 < r := by
        refine Nat.pos_of_ne_zero ?_
        rintro rfl
        cases odd <;> simp at hzero hparity
      refine ⟨Nat.sub_lt prime_prime.pos hpos, ?_, decide_odd_opposite (by decide) hr hparity⟩
      rw [Nat.cast_sub hr.le, ZMod.natCast_self]
      ring

/-- A root with the parity is chosen from itself and from its opposite. -/
theorem rootOfParity?_of_sign {r : Nat} (hr : r < prime) (hx : x < prime)
    (hsign : r = x ∨ (r + x) % prime = 0) :
    rootOfParity? (decide (x % 2 = 1)) r = some x := by
  have hite := ite_parity_of_sign (by decide) hr hx hsign
  -- If the root that is chosen from is zero, then so is `x`.
  have hzero : r = 0 → x = 0 := by
    rintro rfl
    rcases hsign with rfl | hsum
    · rfl
    · rwa [Nat.zero_add, Nat.mod_eq_of_lt hx] at hsum
  rw [rootOfParity?, if_neg]
  · split at hite
    next hparity => rw [if_pos hparity, hite]
    next hparity =>
      have hpos : 0 < r := by
        refine Nat.pos_of_ne_zero fun h0 => hparity ?_
        rw [h0, hzero h0]
        simp
      rw [Nat.mod_eq_of_lt (Nat.sub_lt prime_prime.pos hpos)] at hite
      rw [if_neg hparity, hite]
  · rintro ⟨h0, hodd⟩
    rw [hzero h0] at hodd
    cases hodd

/-- The standard decoding finds the points over `y`, each for the parity of its `x`. -/
theorem recoverX?_eq_some_iff {odd : Bool} (hy : y < prime) :
    recoverX? y odd = some x ↔ Point.IsOn ⟨x, y⟩ ∧ decide (x % 2 = 1) = odd := by
  have hu : numerator y < prime := Nat.mod_lt _ prime_prime.pos
  have hv := cast_denominator_ne_zero y
  rw [recoverX?, Option.bind_eq_some_iff, isOn_iff]
  constructor
  · rintro ⟨r, hr, hx⟩
    obtain ⟨hrlt, hroot⟩ := mul_self_of_ratioRoot? hu hr
    obtain ⟨hxlt, hsquare, hparity⟩ := rootOfParity?_eq_some hrlt hx
    exact ⟨⟨hxlt, hy, by rw [hsquare, hroot]⟩, hparity⟩
  · rintro ⟨⟨hx, -, hsquare⟩, rfl⟩
    dsimp only at hx hsquare
    obtain ⟨r, hr⟩ := exists_ratioRoot? hu hv hsquare
    obtain ⟨hrlt, hroot⟩ := mul_self_of_ratioRoot? hu hr
    have hsame := mul_left_cancel₀ hv (hroot.trans hsquare.symm)
    exact ⟨r, hr, rootOfParity?_of_sign hrlt hx (sign_of_mul_self_eq hrlt hx hsame)⟩

/-- The standard decoding gives back exactly the points of the curve, from what they are written
as. -/
theorem decodeStrict?_eq_some_iff : decodeStrict? b = some P ↔ P.IsOn ∧ P.encode = b := by
  rw [decodeStrict?]
  constructor
  · intro h
    obtain ⟨⟨hlen, hy⟩, h⟩ := Option.ite_none_right_eq_some.mp h
    obtain ⟨x, hx, rfl⟩ := Option.map_eq_some_iff.mp h
    obtain ⟨hon, hsign⟩ := (recoverX?_eq_some_iff hy).mp hx
    exact ⟨hon, encode_of_written hlen rfl hsign⟩
  · rintro ⟨hon, rfl⟩
    have hy := writtenY_encode hon.2.1
    have hlen : P.encode.length = 32 := Bytes.length_ofNatLE _ _
    have hx : recoverX? P.y (decide (P.x % 2 = 1)) = some P.x :=
      (recoverX?_eq_some_iff hon.2.1).mpr ⟨hon, rfl⟩
    rw [hy, writtenSign_encode hon.2.1, hx, if_pos ⟨hlen, hon.2.1⟩]
    rfl

/-- What only the decoding for signatures finds has a `y` that is too large, or the sign of an `x`
that is zero. -/
theorem of_decodeStrict?_eq_none (hlen : b.length = 32) (h : decodeStrict? b = none)
    (hfound : decode? b = some P) :
    prime ≤ writtenY b ∨ (writtenSign b = true ∧ Point.IsOn ⟨0, writtenY b⟩) := by
  by_contra hexcluded
  rw [not_or, not_le, not_and] at hexcluded
  obtain ⟨hy, hzero⟩ := hexcluded
  rw [decode?_eq, Nat.mod_eq_of_lt hy] at hfound
  obtain ⟨hon, hPy⟩ := isOn_of_lift? hy hfound
  -- Otherwise the sign is the parity of the point that was found, which makes the bytes its form.
  have hsign : decide (P.x % 2 = 1) = writtenSign b := by
    rcases eq_or_ne P.x 0 with hx | hx
    · have hfalse : writtenSign b = false :=
        Bool.eq_false_iff.mpr fun htrue => hzero htrue (by rwa [← hPy, ← hx])
      rw [hx, hfalse]
      rfl
    · exact parity_of_lift? hfound hx
  rw [decodeStrict?_eq_some_iff.mpr ⟨hon, encode_of_written hlen hPy hsign⟩] at h
  cases h

end PeerIdentity.Edwards
