import PeerIdentity.Proofs.GroupLaw
import PeerIdentity.Proofs.Keypair

/-!
# Accepted secp256k1 public keys

What is accepted as a secp256k1 public key is what the points of the curve are written as in the
compressed form. A point other than infinity lies over `x` if `x³ + 7` is a square modulo the prime.
It never is zero, since -7 is no cube, so there are two points then, and as the prime is odd their
`y` differ in parity: each of the two leading bytes stands for one of them. The public half of a
keypair is a multiple of the base point by a number below the order, which is prime. So it is not
infinity, and every scalar in range makes a keypair.

* `Curve.cube_add_seven_ne_zero`: there is no point with `y = 0`;
* `Curve.isOn_secp256k1_iff`, `Curve.exists_isOn_of_isSquare`: the points over a given `x`;
* `Curve.compressed_eq_iff`: compressed forms, byte by byte;
* `Curve.KeyPair.exists_ofScalar?`: every scalar in range makes a pair, on any curve whose base
  point has prime order;
* `Secp256k1.PublicKey.points_accepted`: what is accepted, and what it denotes.
-/

namespace PeerIdentity

namespace Curve

/-! ## Points over a given `x` -/

/-- As residues, the points of the curve satisfy `y² = x³ + 7`. -/
theorem isOn_secp256k1_iff {x y : Nat} : secp256k1.IsOn x y ↔ x < secp256k1.p ∧ y < secp256k1.p ∧
    (y : ZMod secp256k1.p) ^ 2 = (x : ZMod secp256k1.p) ^ 3 + 7 := by
  refine and_congr_right fun _ => and_congr_right fun _ => ?_
  have hrhs : ((secp256k1.rhs x : Nat) : ZMod secp256k1.p) = (x : ZMod secp256k1.p) ^ 3 + 7 := by
    have ha : secp256k1.a = 0 := rfl
    have hb : secp256k1.b = 7 := rfl
    rw [rhs, ZMod.natCast_mod, ha, hb]
    push_cast [ZMod.natCast_mod]
    ring
  have hlt : secp256k1.rhs x < secp256k1.p := Nat.mod_lt _ prime_secp256k1.pos
  rw [← hrhs, ← Nat.mod_eq_of_lt hlt, ← ZMod.natCast_eq_natCast_iff', Nat.cast_mul, pow_two,
    ZMod.natCast_mod]

/-- The number that stands for -7 is no cube: a third of the order of the units does not take it
to 1. -/
theorem cube_add_seven_ne_zero (x : ZMod secp256k1.p) : x ^ 3 + 7 ≠ 0 := by
  intro h
  have hcube : ((secp256k1.p - 7 : Nat) : ZMod secp256k1.p) = x ^ 3 := by
    rw [Nat.cast_sub (by decide), ZMod.natCast_self]
    linear_combination -h
  have hx : x ≠ 0 := by
    rintro rfl
    rw [zero_pow (by decide), ZMod.natCast_eq_zero_iff] at hcube
    exact absurd hcube (by decide +kernel)
  -- If -7 were a cube, then this power would be one to the order of the units.
  have hpower : ((secp256k1.p - 7 : Nat) : ZMod secp256k1.p) ^ ((secp256k1.p - 1) / 3) = 1 := by
    have hexponent : 3 * ((secp256k1.p - 1) / 3) = secp256k1.p - 1 := by decide
    rw [hcube, ← pow_mul, hexponent, ZMod.pow_card_sub_one_eq_one hx]
  rw [LucasCertificate.cast_pow_eq_one_iff prime_secp256k1.two_le] at hpower
  exact absurd hpower (by decide +kernel)

/-- The opposite of a point is on the curve. -/
theorem IsOn.opposite {x y : Nat} (h : secp256k1.IsOn x y) :
    secp256k1.IsOn x (secp256k1.p - y) := by
  obtain ⟨hx, hy, hequation⟩ := isOn_secp256k1_iff.mp h
  have hpos : 0 < y := by
    refine Nat.pos_of_ne_zero ?_
    rintro rfl
    exact cube_add_seven_ne_zero _ (by rw [← hequation, Nat.cast_zero, zero_pow two_ne_zero])
  refine isOn_secp256k1_iff.mpr ⟨hx, Nat.sub_lt prime_secp256k1.pos hpos, ?_⟩
  rw [Nat.cast_sub hy.le, ZMod.natCast_self, zero_sub, neg_sq, hequation]

/-- Over an `x` for which `x³ + 7` is a square there is a point of either parity. -/
theorem exists_isOn_of_isSquare {x : Nat} (hx : x < secp256k1.p)
    (h : IsSquare ((x : ZMod secp256k1.p) ^ 3 + 7)) (odd : Bool) :
    ∃ y, secp256k1.IsOn x y ∧ decide (y % 2 = 1) = odd := by
  obtain ⟨r, hr⟩ := h
  have hon : secp256k1.IsOn x r.val := by
    refine isOn_secp256k1_iff.mpr ⟨hx, r.val_lt, ?_⟩
    rw [ZMod.natCast_zmod_val, hr, pow_two]
  by_cases hparity : (r.val % 2 = 1) = odd
  · exact ⟨r.val, hon, decide_odd_of_eq hparity⟩
  · exact ⟨secp256k1.p - r.val, hon.opposite, decide_odd_opposite (by decide) r.val_lt hparity⟩

/-! ## Compressed forms -/

/-- A byte string is the compressed form of a point if it has its length, its leading byte and
its `x`. -/
theorem compressed_eq_iff {x y : Nat} {d : Bytes} (hx : x < secp256k1.p) :
    secp256k1.compressed x y = d ↔
      d.length = 33 ∧ d.head? = some (if y % 2 = 1 then 3 else 2) ∧
        Bytes.toNatBE (d.drop 1) = x := by
  have hfield : secp256k1.fieldLength = 32 := by decide +kernel
  constructor
  · rintro rfl
    refine ⟨?_, rfl, ?_⟩
    · rw [length_compressed, hfield]
    · exact Bytes.toNatBE_ofNatBE (lt_pow_fieldLength hx)
  · rintro ⟨hlen, hhead, rfl⟩
    cases d with
    | nil => cases hhead
    | cons lead rest =>
      have hlen : rest.length = 32 := Nat.succ.inj hlen
      rw [compressed, ← Option.some.inj hhead, hfield, List.drop_one, List.tail_cons, ← hlen,
        Bytes.ofNatBE_toNatBE]

/-! ## Scalars -/

/-- Every scalar from 1 up to below the order makes a pair. -/
theorem KeyPair.exists_ofScalar? {C : Curve} [PrimeOrder C] {k : Nat} (hpos : 0 < k)
    (hlt : k < C.order) : ∃ pair, KeyPair.ofScalar? C k = some pair := by
  have hmul := PrimeOrder.mul_base (C := C) k
  cases hpoint : coordinates (k • PrimeOrder.basePoint C) with
  | infinity =>
    exact absurd (coordinates_eq_infinity_iff.mp hpoint)
      (PrimeOrder.nsmul_basePoint_ne_zero hpos hlt)
  | affine x y =>
    let pair : KeyPair C := ⟨k, ⟨x, y, isOn_of_coordinates hpoint⟩, hpos, hlt, hmul.trans hpoint⟩
    exact ⟨pair, KeyPair.ofScalar?_scalar pair⟩

end Curve

namespace Secp256k1

/-- What is accepted is the compressed form of a point of the curve. -/
theorem PublicKey.exists_decode_iff {d : Bytes} : (∃ k, PublicKey.decode d = .ok k) ↔
    ∃ x y, Curve.secp256k1.IsOn x y ∧ Curve.secp256k1.compressed x y = d := by
  constructor
  · rintro ⟨k, hk⟩
    exact ⟨k.point.x, k.point.y, k.point.isOn, PublicKey.decode_eq_ok_iff.mp hk⟩
  · rintro ⟨x, y, hon, hd⟩
    exact ⟨⟨⟨x, y, hon⟩⟩, PublicKey.decode_eq_ok_iff.mpr hd⟩

/-- A byte string is accepted if it has 33 bytes, the first is 2 or 3, and the others write the `x`
of a point. -/
theorem PublicKey.exists_decode_iff_isSquare {d : Bytes} : (∃ k, PublicKey.decode d = .ok k) ↔
    d.length = 33 ∧ (d.head? = some 2 ∨ d.head? = some 3) ∧
      Bytes.toNatBE (d.drop 1) < Curve.secp256k1.p ∧
      IsSquare ((Bytes.toNatBE (d.drop 1) : ZMod Curve.secp256k1.p) ^ 3 + 7) := by
  rw [PublicKey.exists_decode_iff]
  constructor
  · rintro ⟨x, y, hon, hd⟩
    obtain ⟨hx, -, hequation⟩ := Curve.isOn_secp256k1_iff.mp hon
    obtain ⟨hlen, hhead, rfl⟩ := (Curve.compressed_eq_iff hx).mp hd
    refine ⟨hlen, ?_, hx, y, by rw [← hequation, pow_two]⟩
    rw [hhead, Option.some.injEq, Option.some.injEq]
    exact Curve.compressed_lead y
  · rintro ⟨hlen, hhead, hx, hsquare⟩
    -- The leading byte says which of the two points is meant.
    obtain ⟨y, hon, hparity⟩ := Curve.exists_isOn_of_isSquare hx hsquare (d.head? = some 3)
    refine ⟨_, y, hon, (Curve.compressed_eq_iff hx).mpr ⟨hlen, ?_, rfl⟩⟩
    rcases hhead with hhead | hhead <;> simp_all

/-- An accepted byte string is the written form of its key, and denotes the point over its `x` whose
`y` is odd for the leading byte 3 and even for 2. -/
theorem PublicKey.denotes_of_decode {d : Bytes} {k : PublicKey} (h : PublicKey.decode d = .ok k) :
    k.encode = d ∧ k.point.x = Bytes.toNatBE (d.drop 1) ∧
      (k.point.y % 2 = 1 ↔ d.head? = some 3) ∧
      (k.point.y : ZMod Curve.secp256k1.p) ^ 2 = (k.point.x : ZMod Curve.secp256k1.p) ^ 3 + 7 := by
  have hform := PublicKey.decode_eq_ok_iff.mp h
  obtain ⟨hx, -, hequation⟩ := Curve.isOn_secp256k1_iff.mp k.point.isOn
  obtain ⟨-, hhead, hx⟩ := (Curve.compressed_eq_iff hx).mp hform
  refine ⟨hform, hx.symm, ?_, hequation⟩
  rw [hhead]
  split <;> simp_all

/-- Every scalar from 1 up to below the order is read as a keypair. -/
theorem Keypair.exists_decode {scalar : Nat} (hpos : 0 < scalar)
    (hlt : scalar < Curve.secp256k1.order) :
    ∃ k : Keypair, Keypair.decode (Bytes.ofNatBE 32 scalar) = .ok k ∧ k.pair.scalar = scalar := by
  obtain ⟨pair, hpair⟩ := Curve.KeyPair.exists_ofScalar? hpos hlt
  have hscalar := Curve.KeyPair.scalar_of_ofScalar? hpair
  refine ⟨⟨pair⟩, Keypair.decode_eq_ok_iff.mpr ?_, hscalar⟩
  rw [Keypair.encode, hscalar]
  rfl

/-- What is accepted as a public key is exactly what the points other than infinity are written as
in the compressed form. A byte string is accepted if it has 33 bytes, the first is 2 or 3, and the
others write a number `x` below the prime for which `x³ + 7` is a square. Then it is the written
form of its key, and denotes the point over `x` with the parity of the leading byte, so different
byte strings denote different points. Every scalar from 1 up to below the order is read as a
keypair, and its public half, the multiple of the base point by the scalar, is one of the accepted
keys. -/
theorem PublicKey.points_accepted :
    (∀ d : Bytes, (∃ k, PublicKey.decode d = .ok k) ↔
      d.length = 33 ∧ (d.head? = some 2 ∨ d.head? = some 3) ∧
        Bytes.toNatBE (d.drop 1) < Curve.secp256k1.p ∧
        IsSquare ((Bytes.toNatBE (d.drop 1) : ZMod Curve.secp256k1.p) ^ 3 + 7)) ∧
    (∀ (d : Bytes) (k : PublicKey), PublicKey.decode d = .ok k →
      k.encode = d ∧ k.point.x = Bytes.toNatBE (d.drop 1) ∧
        (k.point.y % 2 = 1 ↔ d.head? = some 3) ∧
        (k.point.y : ZMod Curve.secp256k1.p) ^ 2 = (k.point.x : ZMod Curve.secp256k1.p) ^ 3 + 7) ∧
    (∀ (d e : Bytes) (k l : PublicKey), PublicKey.decode d = .ok k → PublicKey.decode e = .ok l →
      d ≠ e → (k.point.x, k.point.y) ≠ (l.point.x, l.point.y)) ∧
    ∀ scalar : Nat, 1 ≤ scalar → scalar ≤ Curve.secp256k1.order - 1 →
      ∃ pair : Keypair, Keypair.decode (Bytes.ofNatBE 32 scalar) = .ok pair ∧
        Curve.secp256k1.mul scalar Curve.secp256k1.base =
          .affine pair.publicKey.point.x pair.publicKey.point.y ∧
        PublicKey.decode pair.publicKey.encode = .ok pair.publicKey := by
  refine ⟨fun d => PublicKey.exists_decode_iff_isSquare,
    fun d k hk => PublicKey.denotes_of_decode hk, fun d e k l hk hl hne hpoint => hne ?_,
    fun scalar hpos hle => ?_⟩
  · -- The written form depends on the coordinates only.
    obtain ⟨hx, hy⟩ := Prod.mk.inj hpoint
    rw [← PublicKey.decode_eq_ok_iff.mp hk, ← PublicKey.decode_eq_ok_iff.mp hl, PublicKey.encode,
      PublicKey.encode, hx, hy]
  · have horder : 0 < Curve.secp256k1.order := Curve.prime_order_secp256k1.pos
    obtain ⟨pair, hread, rfl⟩ := Keypair.exists_decode hpos (by omega)
    exact ⟨pair, hread, pair.pair.derived, PublicKey.decode_encode _⟩

/-- The base point is accepted with either leading byte, and the two denote different points. The
scalar 1 is read as a keypair. -/
theorem PublicKey.points_accepted_base :
    let x := Bytes.ofNatBE 32 Curve.secp256k1.gx
    ∃ k l, PublicKey.decode (2 :: x) = .ok k ∧ PublicKey.decode (3 :: x) = .ok l ∧
      k.encode = 2 :: x ∧ l.encode = 3 :: x ∧ (k.point.x, k.point.y) ≠ (l.point.x, l.point.y) ∧
      ∃ pair, Keypair.decode (Bytes.ofNatBE 32 1) = .ok pair ∧
        PublicKey.decode pair.publicKey.encode = .ok pair.publicKey := by
  intro x
  obtain ⟨haccepted, hdenotes, hdifferent, hscalar⟩ := points_accepted
  have hx : Bytes.toNatBE x = Curve.secp256k1.gx := by decide +kernel
  obtain ⟨hlt, -, hequation⟩ :=
    Curve.isOn_secp256k1_iff.mp (Curve.PrimeOrder.isOn_base (C := Curve.secp256k1))
  have hsquare : IsSquare ((Curve.secp256k1.gx : ZMod Curve.secp256k1.p) ^ 3 + 7) :=
    ⟨_, hequation.symm.trans (pow_two _)⟩
  rw [← hx] at hlt hsquare
  obtain ⟨k, hk⟩ := (haccepted (2 :: x)).mpr ⟨rfl, .inl rfl, hlt, hsquare⟩
  obtain ⟨l, hl⟩ := (haccepted (3 :: x)).mpr ⟨rfl, .inr rfl, hlt, hsquare⟩
  obtain ⟨pair, hread, -, hpublic⟩ := hscalar 1 (by decide) (by decide)
  exact ⟨k, l, hk, hl, (hdenotes _ k hk).1, (hdenotes _ l hl).1,
    hdifferent _ _ k l hk hl (by simp), pair, hread, hpublic⟩

end Secp256k1

end PeerIdentity
