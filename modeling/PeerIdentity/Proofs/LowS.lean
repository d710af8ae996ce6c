import PeerIdentity.Key.Secp256k1
import PeerIdentity.Proofs.Der
import PeerIdentity.Proofs.GroupLaw

/-!
# Signatures in their low form

A signature `(r, s)` and its opposite `(r, n - s)` belong to the same messages, because the points
that their verification compares with `r` are opposite and have the same `x`. As the order `n` is
odd, exactly one of the two has an `s` of at most half of the order. Signatures of secp256k1 keys
are always of this form.

* `Ecdsa.Signature.decode?_encode`, `Ecdsa.Signature.length_encode`: signatures are read back from
  their encoding, whose length is that of the two numbers;
* `Ecdsa.Signature.isValid_opposite`: opposite signatures are valid for the same messages;
* `Ecdsa.inRange_of_signWith?`, `Ecdsa.inRange_of_sign?`: the numbers of a signature are from 1 up
  to below the order;
* `Secp256k1.Keypair.sign_lowS`: signatures in their low form.
-/

namespace PeerIdentity.Ecdsa

namespace Signature

/-- Both numbers are from 1 up to below the order. -/
def InRange (order : Nat) (sig : Signature) : Prop :=
  0 < sig.r ∧ sig.r < order ∧ 0 < sig.s ∧ sig.s < order

/-- The signature whose `s` is the opposite modulo the order. -/
def opposite (order : Nat) (sig : Signature) : Signature :=
  ⟨sig.r, order - sig.s⟩

variable {order : Nat} {sig : Signature}

/-- The opposite of a signature is in range exactly if the signature is. -/
theorem inRange_opposite_iff : (sig.opposite order).InRange order ↔ sig.InRange order := by
  simp only [InRange, opposite]
  omega

/-! ## Encodings -/

section Encoding

variable (hr : Bytes.bitLength sig.r ≤ 256) (hs : Bytes.bitLength sig.s ≤ 256)
include hr hs

/-- The two integers of a signature have three bytes each beside the full ones. -/
theorem length_contents : [Der.integer sig.r, Der.integer sig.s].flatten.length =
    Bytes.bitLength sig.r / 8 + Bytes.bitLength sig.s / 8 + 6 := by
  simp only [List.flatten_cons, List.flatten_nil, List.append_nil, List.length_append]
  rw [Der.length_integer_of_lt (by omega), Der.length_integer_of_lt (by omega)]
  omega

/-- An encoded signature has eight bytes beside the full ones of its numbers. -/
theorem length_encode :
    sig.encode.length = Bytes.bitLength sig.r / 8 + Bytes.bitLength sig.s / 8 + 8 := by
  have hlen := length_contents hr hs
  exact (Der.length_element_of_lt _ (by omega)).trans (congrArg (· + 2) hlen)

/-- A signature is read back from its encoding. -/
theorem decode?_encode : decode? sig.encode = some sig := by
  have hlen := length_contents hr hs
  have hwhole : Der.whole? Der.sequenceTag sig.encode =
      some [Der.integer sig.r, Der.integer sig.s].flatten :=
    Der.whole?_element (by decide) (Nat.lt_trans (by omega) (by decide : 128 < Der.contentsLimit))
  have hintegers : Der.integers? 2 [Der.integer sig.r, Der.integer sig.s].flatten =
      some [sig.r, sig.s] := by
    refine @Der.integers?_flatten [sig.r, sig.s] fun m hm => ?_
    have hbits : Bytes.bitLength m ≤ 256 := by
      simp only [List.mem_cons, List.not_mem_nil, or_false] at hm
      rcases hm with rfl | rfl
      · exact hr
      · exact hs
    rw [Bytes.byteLength, Der.contentsLimit]
    omega
  rw [decode?, hwhole]
  simp only [Option.bind_eq_bind, Option.bind_some]
  rw [hintegers]
  rfl

end Encoding

/-! ## The low form -/

/-- A signature whose `s` is in the lower half is left as it is. -/
theorem lowS_of_le (h : sig.s ≤ order / 2) : sig.lowS order = sig :=
  if_neg (Nat.not_lt.mpr h)

/-- The low form has its `s` in the lower half. -/
theorem s_lowS_le : (sig.lowS order).s ≤ order / 2 := by
  rw [lowS]
  split
  · have hs : order / 2 < sig.s := by assumption
    change order - sig.s ≤ order / 2
    omega
  · exact Nat.not_lt.mp (by assumption)

/-- The low form has the smaller of `s` and its opposite. -/
theorem lowS_eq (h : sig.s ≤ order) : sig.lowS order = ⟨sig.r, min sig.s (order - sig.s)⟩ := by
  rw [lowS]
  split
  · rw [Nat.min_eq_right (by omega)]
  · rw [Nat.min_eq_left (by omega)]

/-- The low form of a signature in range is in range. -/
theorem inRange_lowS (h : sig.InRange order) : (sig.lowS order).InRange order := by
  rw [lowS]
  split
  · exact inRange_opposite_iff.mpr h
  · exact h

/-- Opposite signatures have the same low form. -/
theorem lowS_opposite (h : sig.s ≤ order) : (sig.opposite order).lowS order = sig.lowS order := by
  rw [lowS_eq h, lowS_eq (Nat.sub_le order sig.s), opposite, Nat.sub_sub_self h, Nat.min_comm]

end Signature

/-! ## Opposite signatures -/

variable {C : Curve} [Curve.PrimeOrder C]

open Curve Curve.PrimeOrder

/-- Quotients by opposite numbers are opposite. -/
theorem cast_divMod_opposite {s : Nat} (hs : s ≤ C.order) (a : Nat) :
    (divMod a (C.order - s) C.order : ZMod C.order) = -(divMod a s C.order : Nat) := by
  rw [cast_divMod, cast_divMod, Nat.cast_sub hs, ZMod.natCast_self, zero_sub, div_neg]

/-- The point whose `x` a valid signature has as its `r`. -/
def Signature.comparedPoint (k : Curve.KeyPair C) (message : Bytes) (sig : Signature) :
    C.weierstrass.Point :=
  divMod (messageScalar message) sig.s C.order • basePoint C +
    divMod sig.r sig.s C.order • k.scalar • basePoint C

namespace Signature

variable (k : Curve.KeyPair C) (message : Bytes) {sig : Signature}

/-- The opposite of `s` leads to the opposite point, which has the same `x`. -/
theorem comparedPoint_opposite (hs : sig.s ≤ C.order) :
    (sig.opposite C.order).comparedPoint k message = -sig.comparedPoint k message := by
  have hG : C.order • basePoint C = 0 := order_nsmul_basePoint
  have hP : C.order • k.scalar • basePoint C = 0 := by rw [nsmul_left_comm, hG, nsmul_zero]
  rw [comparedPoint, comparedPoint, neg_add, ← nsmul_eq_neg hG (cast_divMod_opposite hs _),
    ← nsmul_eq_neg hP (cast_divMod_opposite hs _)]
  rfl

/-- A signature is valid exactly if it is in range and the `x` of the compared point is its `r`. -/
theorem isValid_iff : sig.isValid C k.point.x k.point.y message ↔
    sig.InRange C.order ∧ ∃ x, (∃ y, coordinates (sig.comparedPoint k message) = .affine x y) ∧
      x % C.order = sig.r := by
  -- The two products and their sum are those of the group.
  have hpoint : C.add (C.mul (divMod (messageScalar message) sig.s C.order) C.base)
      (C.mul (divMod sig.r sig.s C.order) (.affine k.point.x k.point.y)) =
        coordinates (sig.comparedPoint k message) := by
    rw [k.coordinates_point, mul_base, mul_coordinates, add_coordinates, comparedPoint]
  simp only [isValid, hpoint]
  split
  next hrange =>
    split
    next hinfinity => simp [hinfinity]
    next x y haffine => simp [haffine, InRange, hrange]
  next hrange => simp [InRange, hrange]

/-- Opposite signatures are valid for the same messages. -/
theorem isValid_opposite : (sig.opposite C.order).isValid C k.point.x k.point.y message =
    sig.isValid C k.point.x k.point.y message := by
  rw [Bool.eq_iff_iff, isValid_iff, isValid_iff, inRange_opposite_iff]
  -- Out of range both are invalid, so only opposite points in range are left to compare.
  refine and_congr_right fun hrange => ?_
  rw [comparedPoint_opposite k message hrange.2.2.2.le]
  simp only [exists_coordinates_neg_iff, opposite]

/-- The low form of a signature is valid for the same messages. -/
theorem isValid_lowS : (sig.lowS C.order).isValid C k.point.x k.point.y message =
    sig.isValid C k.point.x k.point.y message := by
  rw [lowS]
  split
  · exact isValid_opposite k message
  · rfl

end Signature

/-! ## Signing -/

/-- The `r` that a nonce leads to is below the order. -/
theorem commitment_lt (nonce : Nat) : commitment C nonce < C.order := by
  have horder : 0 < C.order := (prime_order : C.order.Prime).pos
  rw [commitment]
  split
  · exact horder
  · exact Nat.mod_lt _ horder

/-- The numbers of a signature that is made with a nonce are from 1 up to below the order. -/
theorem inRange_of_signWith? {scalar nonce : Nat} {message : Bytes} {sig : Signature}
    (h : signWith? C scalar nonce message = some sig) : sig.InRange C.order := by
  rw [signWith?, Option.ite_none_left_eq_some, not_or] at h
  obtain ⟨⟨hr, hs⟩, hsig⟩ := h
  obtain rfl := Option.some.inj hsig
  exact ⟨Nat.pos_of_ne_zero hr, commitment_lt nonce, Nat.pos_of_ne_zero hs,
    divMod_lt (prime_order : C.order.Prime).pos _ _⟩

/-- So are those of the signature with the first nonce that yields one. -/
theorem inRange_of_sign? {scalar : Nat} {entropy message : Bytes} {attempts : Nat}
    {sig : Signature} (h : sign? C scalar entropy message attempts = some sig) :
    sig.InRange C.order := by
  induction attempts with
  | zero => cases h
  | succ attempts ih =>
    rw [sign?] at h
    split at h
    next hsign =>
      obtain rfl := Option.some.inj h
      exact inRange_of_signWith? hsign
    next => exact ih h

end PeerIdentity.Ecdsa

/-! ## Keys on secp256k1 -/

namespace PeerIdentity.Secp256k1

open Ecdsa (Signature)

section InRange

variable {sig : Signature} (h : sig.InRange Curve.secp256k1.order)
include h

/-- A signature in range is read back from its encoding. -/
theorem decode?_encode_of_inRange : Signature.decode? sig.encode = some sig :=
  Signature.decode?_encode (Bytes.bitLength_le_iff.mpr (Nat.lt_trans h.2.1 (by decide)))
    (Bytes.bitLength_le_iff.mpr (Nat.lt_trans h.2.2.2 (by decide)))

/-- What is made of the encoding of a signature in range is that of its low form. -/
theorem finish?_encode :
    finish? sig.encode = some (sig.lowS Curve.secp256k1.order).encode := by
  rw [finish?, decode?_encode_of_inRange h, Option.map_some]

/-- A low `s` has a binary digit less than the order. -/
theorem length_encode_lowS : 8 ≤ (sig.lowS Curve.secp256k1.order).encode.length ∧
    (sig.lowS Curve.secp256k1.order).encode.length ≤ 71 := by
  have hr : Bytes.bitLength (sig.lowS Curve.secp256k1.order).r ≤ 256 :=
    Bytes.bitLength_le_iff.mpr (Nat.lt_trans (Signature.inRange_lowS h).2.1 (by decide))
  have hs : Bytes.bitLength (sig.lowS Curve.secp256k1.order).s ≤ 255 :=
    Bytes.bitLength_le_iff.mpr (Nat.lt_of_le_of_lt Signature.s_lowS_le (by decide))
  rw [Signature.length_encode hr (by omega)]
  omega

/-- The encoding of a signature in range verifies exactly if the signature is valid. -/
theorem verify_encode (k : PublicKey) (message : Bytes) :
    k.verify message sig.encode = sig.isValid Curve.secp256k1 k.point.x k.point.y message := by
  rw [PublicKey.verify, Ecdsa.verify, decode?_encode_of_inRange h]

end InRange

/-- What a keypair signs is the low form of what the engine signs. -/
theorem Keypair.sign?_eq (k : Keypair) (entropy message : Bytes) :
    k.sign? entropy message =
      (Ecdsa.sign? Curve.secp256k1 k.pair.scalar entropy message 100).map fun sig =>
        (Signature.mk sig.r (min sig.s (Curve.secp256k1.order - sig.s))).encode := by
  rw [sign?]
  cases hsign : Ecdsa.sign? Curve.secp256k1 k.pair.scalar entropy message 100 with
  | none => rfl
  | some sig =>
    have hrange := Ecdsa.inRange_of_sign? hsign
    rw [Option.bind_some, finish?_encode hrange, Signature.lowS_eq hrange.2.2.2.le, Option.map_some]

/-- Whatever signature `(r, s)` the engine makes for a keypair, with numbers from 1 up to below the
order `n`, what is signed is `(r, min s (n - s))`. This is the only one of `(r, s)` and `(r, n - s)`
whose second number is at most half of the order, and it belongs to the same messages. -/
theorem Keypair.sign_lowS (k : Keypair) (message : Bytes) {r s : Nat}
    (hr : 1 ≤ r ∧ r < Curve.secp256k1.order) (hs : 1 ≤ s ∧ s < Curve.secp256k1.order) :
    let n := Curve.secp256k1.order
    let S := min s (n - s)
    let low := (Signature.mk r S).encode
    finish? (Signature.mk r s).encode = some low ∧
    (∀ entropy, k.sign? entropy message =
      (Ecdsa.sign? Curve.secp256k1 k.pair.scalar entropy message 100).map fun sig =>
        (Signature.mk sig.r (min sig.s (n - sig.s))).encode) ∧
    Signature.decode? low = some ⟨r, S⟩ ∧
    (1 ≤ S ∧ S ≤ n / 2 ∧ ∀ t, t = s ∨ t = n - s → t ≤ n / 2 → t = S) ∧
    (8 ≤ low.length ∧ low.length ≤ 71) ∧
    (s ≤ n / 2 → finish? (Signature.mk r s).encode = some (Signature.mk r s).encode) ∧
    finish? (Signature.mk r (n - s)).encode = some low ∧
    finish? low = some low ∧
    k.publicKey.verify message low = k.publicKey.verify message (Signature.mk r s).encode := by
  intro n S low
  have hrange : (Signature.mk r s).InRange n := ⟨hr.1, hr.2, hs.1, hs.2⟩
  have hopposite : (Signature.mk r (n - s)).InRange n := Signature.inRange_opposite_iff.mpr hrange
  have hlowS : (Signature.mk r s).lowS n = ⟨r, S⟩ := Signature.lowS_eq hs.2.le
  have hlow : (Signature.mk r S).InRange n := hlowS ▸ Signature.inRange_lowS hrange
  have hS : S ≤ n / 2 := by
    have hle : ((Signature.mk r s).lowS n).s ≤ n / 2 := Signature.s_lowS_le
    rwa [hlowS] at hle
  -- As the order is odd, `s` and `n - s` are not both at most half of it.
  have hodd : n % 2 = 1 := by decide
  refine ⟨?_, fun entropy => k.sign?_eq entropy message, decode?_encode_of_inRange hlow,
    ⟨hlow.2.2.1, hS, ?_⟩, ?_, fun hle => ?_, ?_, ?_, ?_⟩
  · rw [finish?_encode hrange, hlowS]
  · rintro t (rfl | rfl) ht
    · omega
    · omega
  · have hlen := length_encode_lowS hrange
    rwa [hlowS] at hlen
  · rw [finish?_encode hrange, Signature.lowS_of_le hle]
  · have hsame : (Signature.mk r (n - s)).lowS n = (Signature.mk r s).lowS n :=
      @Signature.lowS_opposite n ⟨r, s⟩ hs.2.le
    rw [finish?_encode hopposite, hsame, hlowS]
  · rw [finish?_encode hlow, Signature.lowS_of_le hS]
  · rw [verify_encode hlow, verify_encode hrange, ← hlowS]
    exact Signature.isValid_lowS k.pair message

/-- The largest `s` becomes the smallest, and the signature as short as it can be. -/
theorem Keypair.sign_lowS_one :
    finish? (Signature.mk 1 (Curve.secp256k1.order - 1)).encode =
        some [0x30, 6, 2, 1, 1, 2, 1, 1] ∧
      (Keypair.mk (.one _)).publicKey.verify [] [0x30, 6, 2, 1, 1, 2, 1, 1] =
        (Keypair.mk (.one _)).publicKey.verify []
          (Signature.mk 1 (Curve.secp256k1.order - 1)).encode := by
  have hform : (Signature.mk 1 1).encode = [0x30, 6, 2, 1, 1, 2, 1, 1] := by decide +kernel
  obtain ⟨hfinish, -, -, -, -, -, -, -, hverify⟩ := (Keypair.mk (.one _)).sign_lowS []
    (r := 1) (s := Curve.secp256k1.order - 1) (by decide) (by decide)
  rw [← hform]
  exact ⟨hfinish, hverify⟩

end PeerIdentity.Secp256k1
