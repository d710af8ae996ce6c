import PeerIdentity.Curve.KeyPair
import PeerIdentity.Curve.PointEncoding
import PeerIdentity.Proofs.Bytes
import PeerIdentity.Proofs.SquareRoot

/-!
# Points and their encodings

A point of a curve is read back from its uncompressed form. Over a prime that is 3 modulo 4 the
roots of squares are found, and the two roots of a square differ in parity, so a point is read back
from its compressed form too.

* `Curve.lift?_of_isOn`: the point over `x` with the parity of its `y`;
* `Curve.decodePoint?_uncompressed`, `Curve.decodePoint?_compressed`: points are read back;
* `Curve.compressed_of_decodePoint?`: what is read as a compressed point is its written form.
-/

namespace PeerIdentity

namespace Curve

variable {C : Curve}

/-- The point over `x` whose `y` has the parity of the `y` of a point is that point. -/
theorem lift?_of_isOn (hp : C.p.Prime) (hmod : C.p % 4 = 3) {x y : Nat} (h : C.IsOn x y) :
    C.lift? x (y % 2 = 1) = some y := by
  obtain ⟨-, hy, hyx⟩ := h
  have hsquare : y * y % C.p = C.rhs x % C.p := by
    rw [hyx]
    exact (Nat.mod_mod _ _).symm
  obtain ⟨r, hr, hrlt, hsign⟩ := sqrtMod?_of_square hp (.inl hmod) hy hsquare
  simp only [lift?, hr, ite_parity_of_sign (by omega) hrlt hy hsign]
  simp

/-- A point over `x` has the parity that was asked for. -/
theorem parity_of_lift? {x y : Nat} {odd : Bool} (h : C.lift? x odd = some y) :
    decide (y % 2 = 1) = odd := by
  unfold lift? at h
  split at h
  next => cases h
  next r hr =>
    rw [Option.ite_none_right_eq_some] at h
    obtain ⟨hparity, hy⟩ := h
    obtain rfl := Option.some.inj hy
    exact decide_odd_of_eq hparity

/-! ## Encodings -/

/-- What is below a number fits into the bytes of the number. -/
theorem lt_pow_byteCount {m n : Nat} (h : m < n) : m < 256 ^ ((n.log2 + 8) / 8) := by
  have hlog : n < 2 ^ (n.log2 + 1) := Nat.lt_log2_self
  have hpow : 2 ^ (n.log2 + 1) ≤ 256 ^ ((n.log2 + 8) / 8) := by
    calc 2 ^ (n.log2 + 1) ≤ 2 ^ (8 * ((n.log2 + 8) / 8)) :=
          Nat.pow_le_pow_right (by decide) (by omega)
      _ = 256 ^ ((n.log2 + 8) / 8) := pow_mul 2 8 _
  omega

theorem lt_pow_fieldLength {x : Nat} (h : x < C.p) : x < 256 ^ C.fieldLength :=
  lt_pow_byteCount h

theorem lt_pow_scalarLength {k : Nat} (h : k < C.order) : k < 256 ^ C.scalarLength :=
  lt_pow_byteCount h

/-- A point in uncompressed form has a byte and two coordinates. -/
@[simp]
theorem length_uncompressed (x y : Nat) : (C.uncompressed x y).length = 2 * C.fieldLength + 1 := by
  simp only [uncompressed, List.cons_append, List.length_cons, List.length_append,
    Bytes.length_ofNatBE]
  omega

/-- A point in compressed form has a byte and one coordinate. -/
@[simp]
theorem length_compressed (x y : Nat) : (C.compressed x y).length = C.fieldLength + 1 := by
  simp [compressed]

/-- A point of the curve is read back from its uncompressed form. -/
theorem decodePoint?_uncompressed {x y : Nat} (h : C.IsOn x y) :
    C.decodePoint? (C.uncompressed x y) = some (x, y) := by
  have hx := Bytes.toNatBE_ofNatBE (lt_pow_fieldLength h.1)
  have hy := Bytes.toNatBE_ofNatBE (lt_pow_fieldLength h.2.1)
  have htake : (Bytes.ofNatBE C.fieldLength x ++ Bytes.ofNatBE C.fieldLength y).take C.fieldLength =
      Bytes.ofNatBE C.fieldLength x := List.take_left' (Bytes.length_ofNatBE _ _)
  have hdrop : (Bytes.ofNatBE C.fieldLength x ++ Bytes.ofNatBE C.fieldLength y).drop C.fieldLength =
      Bytes.ofNatBE C.fieldLength y := List.drop_left' (Bytes.length_ofNatBE _ _)
  have hlen : (Bytes.ofNatBE C.fieldLength x ++ Bytes.ofNatBE C.fieldLength y).length =
      2 * C.fieldLength := by
    rw [List.length_append, Bytes.length_ofNatBE, Bytes.length_ofNatBE]
    omega
  rw [uncompressed, List.cons_append, decodePoint?]
  simp only [htake, hdrop, hx, hy]
  rw [if_neg (by decide), if_pos (.inl trivial), if_pos ⟨hlen, h⟩]

/-- A compressed point starts with 2 or 3. -/
theorem compressed_lead (y : Nat) :
    (if y % 2 = 1 then 3 else 2 : UInt8) = 2 ∨ (if y % 2 = 1 then 3 else 2 : UInt8) = 3 := by
  split <;> simp

/-- A point of the curve is read back from its compressed form, if the prime is 3 modulo 4. -/
theorem decodePoint?_compressed (hp : C.p.Prime) (hmod : C.p % 4 = 3) {x y : Nat}
    (h : C.IsOn x y) : C.decodePoint? (C.compressed x y) = some (x, y) := by
  have hx := Bytes.toNatBE_ofNatBE (lt_pow_fieldLength h.1)
  have htake : (Bytes.ofNatBE C.fieldLength x).take C.fieldLength = Bytes.ofNatBE C.fieldLength x :=
    List.take_of_length_le (by simp)
  have hlead : decide ((if y % 2 = 1 then 3 else 2 : UInt8) = 3) = decide (y % 2 = 1) := by
    split <;> simp_all
  rw [compressed, decodePoint?]
  simp only [htake, hx]
  rw [if_pos (compressed_lead y), if_pos ⟨Bytes.length_ofNatBE _ _, h.1⟩, hlead,
    lift?_of_isOn hp hmod h]
  rfl

/-- What is read as a compressed point is its written form. -/
theorem compressed_of_decodePoint? {lead : UInt8} {rest : Bytes} {x y : Nat}
    (hlead : lead = 2 ∨ lead = 3) (h : C.decodePoint? (lead :: rest) = some (x, y)) :
    C.compressed x y = lead :: rest := by
  simp only [decodePoint?] at h
  rw [if_pos hlead] at h
  split at h
  next hbounds =>
    obtain ⟨y', hlift, hxy⟩ := Option.map_eq_some_iff.mp h
    obtain ⟨rfl, rfl⟩ := Prod.mk.inj hxy
    have hparity := parity_of_lift? hlift
    have htake : rest.take C.fieldLength = rest := List.take_of_length_le hbounds.1.le
    have hx : Bytes.ofNatBE C.fieldLength (Bytes.toNatBE rest) = rest := by
      rw [← hbounds.1, Bytes.ofNatBE_toNatBE]
    rw [compressed, htake, hx]
    rcases hlead with rfl | rfl <;> simp_all
  next => cases h

/-! ## Public points -/

/-- A point of the curve is found from its coordinates. -/
theorem PublicPoint.of?_self (P : PublicPoint C) : PublicPoint.of? C P.x P.y = some P :=
  dif_pos P.isOn

/-- A point that is found from coordinates has these coordinates. -/
theorem PublicPoint.of?_eq_some {x y : Nat} {P : PublicPoint C}
    (h : PublicPoint.of? C x y = some P) : P.x = x ∧ P.y = y := by
  unfold of? at h
  split at h
  next =>
    cases h
    exact ⟨rfl, rfl⟩
  next => cases h

/-- A pair is found from its scalar. -/
theorem KeyPair.ofScalar?_scalar (k : KeyPair C) : KeyPair.ofScalar? C k.scalar = some k := by
  rw [ofScalar?, dif_pos ⟨k.pos, k.lt_order⟩]
  split
  next hmul =>
    rw [k.derived] at hmul
    cases hmul
  next x y hmul =>
    rw [k.derived] at hmul
    cases hmul
    exact dif_pos k.point.isOn

end Curve

end PeerIdentity
