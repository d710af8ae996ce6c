import PeerIdentity.Proofs.Edwards
import PeerIdentity.Proofs.PublicKey

/-!
# Ed25519 public keys that are no points

An Ed25519 public key is accepted for its length alone. What the points of the curve are written as
is accepted, and signatures are verified with these points. Other byte strings are accepted too, and
where they are not taken for a point in another way, no signature verifies under them.

* `PublicKey.isEncoding_ed25519_iff`: the accepted encodings;
* `PublicKey.of_not_point`: what an accepted key is that is no point;
* `PublicKey.ed25519_accepted`: what is accepted, and what it means for signatures;
* `PublicKey.ed25519_accepts_no_point`: an accepted key that is no point.
-/

namespace PeerIdentity.PublicKey

open Edwards (Point decodeStrict? writtenY writtenSign)

/-- Any 32 bytes are accepted. -/
theorem isEncoding_ed25519_iff {b : Bytes} : IsEncoding .ed25519 b ↔ b.length = 32 := by
  rw [isEncoding_iff]
  constructor
  · rintro ⟨k, -, htype, rfl⟩
    cases k with
    | ed25519 k => exact k.length_bytes
    | _ => cases htype
  · intro h
    exact ⟨ed25519 ⟨b, h⟩, trivial, rfl, rfl⟩

/-- Bytes of another length than 32 are refused, with their number in the message. -/
theorem ofRaw_ed25519_of_length_ne {b : Bytes} (h : b.length ≠ 32) : ofRaw .ed25519 b =
    .error (.decoding (some .ed25519) s!"expected 32 bytes, got {b.length}") := by
  have hdecode : Ed25519.PublicKey.decode b = .error (.length 32 b.length) := dif_neg h
  rw [ofRaw, readRaw, hdecode]
  rfl

/-- A key that no decoding takes for a point verifies nothing. -/
theorem verify_of_decode?_eq_none {k : Ed25519.PublicKey} (h : Edwards.decode? k.bytes = none)
    (message signature : Bytes) : (ed25519 k).verify message signature = false := by
  show Ed25519.verify k.bytes message signature = false
  rw [Ed25519.verify, h]

/-- Of the byte strings that are accepted and no points, the `y` is too large, or it has the sign of
an `x` that is zero, or there is no point over the `y` and no signature verifies under them. -/
theorem of_not_point (k : Ed25519.PublicKey) (h : decodeStrict? k.bytes = none) :
    Edwards.prime ≤ writtenY k.bytes ∨
    (writtenSign k.bytes = true ∧ Point.IsOn ⟨0, writtenY k.bytes⟩) ∨
    ((∀ P : Point, P.IsOn → P.y ≠ writtenY k.bytes % Edwards.prime) ∧
      ∀ message signature, (ed25519 k).verify message signature = false) := by
  cases hfound : Edwards.decode? k.bytes with
  | none =>
    have hnone := Edwards.decode?_eq_none_iff.mp hfound
    exact .inr (.inr ⟨hnone, verify_of_decode?_eq_none hfound⟩)
  | some P =>
    rcases Edwards.of_decodeStrict?_eq_none k.length_bytes h hfound with hy | hzero
    · exact .inl hy
    · exact .inr (.inl hzero)

/-- The accepted Ed25519 keys are the points of the curve but for byte strings of 32 bytes that are
no points. A byte string is accepted if it has 32 bytes, and otherwise refused with an error that
names the algorithm. What the standard decoding takes for a point is what that point is written as;
it is accepted, and signatures are verified with the point. Of what is accepted besides, the `y` is
too large, or it has the sign of an `x` that is zero, or there is no point over the `y` and no
signature verifies under it. -/
theorem ed25519_accepted (b : Bytes) :
    ((IsEncoding .ed25519 b ↔ b.length = 32 ∧ ∃ P, decodeStrict? b = some P) ↔
      (b.length = 32 → ∃ P, decodeStrict? b = some P)) ∧
    (IsEncoding .ed25519 b ↔ b.length = 32) ∧
    (¬ IsEncoding .ed25519 b → ofRaw .ed25519 b =
      .error (.decoding (some .ed25519) s!"expected 32 bytes, got {b.length}")) ∧
    (∀ P, decodeStrict? b = some P ↔ P.IsOn ∧ P.encode = b) ∧
    (∀ P, decodeStrict? b = some P → IsEncoding .ed25519 b ∧ Edwards.decode? b = some P) ∧
    ∀ h : b.length = 32, decodeStrict? b = none →
      Edwards.prime ≤ writtenY b ∨
      (writtenSign b = true ∧ Point.IsOn ⟨0, writtenY b⟩) ∨
      ((∀ P : Point, P.IsOn → P.y ≠ writtenY b % Edwards.prime) ∧
        ∀ message signature, (ed25519 ⟨b, h⟩).verify message signature = false) := by
  refine ⟨?_, isEncoding_ed25519_iff, fun h => ?_, fun P => Edwards.decodeStrict?_eq_some_iff,
    fun P h => ?_, fun h => of_not_point ⟨b, h⟩⟩
  · rw [isEncoding_ed25519_iff, iff_self_and]
  · exact ofRaw_ed25519_of_length_ne (mt isEncoding_ed25519_iff.mpr h)
  · obtain ⟨hon, rfl⟩ := Edwards.decodeStrict?_eq_some_iff.mp h
    exact ⟨isEncoding_ed25519_iff.mpr (Bytes.length_ofNatLE _ _), Edwards.decode?_encode hon⟩

/-- The base point is accepted, and there is no point over 2, which is accepted too. -/
theorem ed25519_accepted_base :
    IsEncoding .ed25519 Point.base.encode ∧ Edwards.decode? Point.base.encode = some Point.base ∧
      IsEncoding .ed25519 (2 :: List.replicate 31 0) ∧
      ∀ message signature,
        (ed25519 ⟨2 :: List.replicate 31 0, rfl⟩).verify message signature = false := by
  obtain ⟨-, -, -, hpoints, hpoint, -⟩ := ed25519_accepted Point.base.encode
  obtain ⟨-, hiff, -, -, -, hother⟩ := ed25519_accepted (2 :: List.replicate 31 0)
  have hbase := hpoint _ ((hpoints _).mpr ⟨(by decide +kernel : Point.base.IsOn), rfl⟩)
  refine ⟨hbase.1, hbase.2, hiff.mpr rfl, ?_⟩
  rcases hother rfl (by decide +kernel) with hy | ⟨hsign, -⟩ | ⟨-, hverify⟩
  · exact absurd hy (by decide +kernel)
  · exact absurd hsign (by decide +kernel)
  · exact hverify

/-- Not only points are accepted: there is no point over 2. -/
theorem ed25519_accepts_no_point :
    ¬ ∀ b, IsEncoding .ed25519 b ↔ b.length = 32 ∧ ∃ P, decodeStrict? b = some P := by
  intro h
  have haccepted : IsEncoding .ed25519 (2 :: List.replicate 31 0) := isEncoding_ed25519_iff.mpr rfl
  obtain ⟨-, P, hP⟩ := (h _).mp haccepted
  have hnone : decodeStrict? (2 :: List.replicate 31 0) = none := by decide +kernel
  rw [hnone] at hP
  cases hP

end PeerIdentity.PublicKey
