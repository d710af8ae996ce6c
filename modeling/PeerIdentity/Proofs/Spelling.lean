import PeerIdentity.Proofs.PublicKey

/-!
# One encoding for each key

Key structures can be spelled in many ways: lengths with more bytes than they need, integers with
leading zeros, other algorithm identifiers for the same numbers, the numbers of an RSA key without a
structure around them, points with one coordinate, and bytes that follow the structure. However a
structure is spelled, it can be read in one way only, and RSA and P-256 keys are accepted in one
spelling, which is the shortest for each length and each integer in it.

* `Der.IsLength`, `Der.IsElement`: lengths and elements in any spelling;
* `Der.IsElement.unique`: an element in any spelling is read in one way, whatever follows it;
* `Der.length_lengthBytes_le_of_isLength`, `Der.IsNonNegative.length_integerContents_le`: the
  accepted spelling is the shortest;
* `PublicKeyInfo.IsSpelling`, `PublicKeyInfo.IsNumbers`: key structures in any spelling;
* `PublicKey.isEncoding_rsa_iff`, `PublicKey.isEncoding_ecdsa_iff`: the accepted encodings;
* `PublicKey.isEncoding_unique`: the one accepted encoding of a key.
-/

namespace PeerIdentity

namespace Der

/-! ## Lengths and elements in any spelling -/

/-- The bytes of a length in any spelling: one byte below 128, or the number of length bytes and
those bytes, among them any number of leading zeros. -/
inductive IsLength : (n : Nat) → Bytes → Prop
  | short {n : Nat} (h : n < 128) : IsLength n [UInt8.ofNat n]
  | long {count : UInt8} {digits : Bytes} (hcount : count.toNat = 128 + digits.length)
      (hdigits : digits ≠ []) : IsLength (Bytes.toNatBE digits) (count :: digits)

/-- The first byte tells where a length ends, so what follows is not taken for a part of it. -/
theorem IsLength.unique {m n : Nat} {x y r s : Bytes} (hx : IsLength m x) (hy : IsLength n y)
    (h : x ++ r = y ++ s) : m = n ∧ r = s := by
  cases hx with
  | short hm =>
    have hm' := UInt8.toNat_ofNat_of_lt' (hm.trans (by decide : 128 < UInt8.size))
    cases hy with
    | short hn =>
      obtain ⟨hhead, htail⟩ := List.cons.inj h
      rw [← hm', hhead, UInt8.toNat_ofNat_of_lt' (hn.trans (by decide : 128 < UInt8.size))]
      exact ⟨rfl, htail⟩
    -- A first byte below 128 is a length, and one from 128 on counts the bytes of a length.
    | long hcount hdigits =>
      have hhead := congrArg UInt8.toNat (List.cons.inj h).1
      omega
  | long hcount hdigits =>
    cases hy with
    | short hn =>
      have hn' := UInt8.toNat_ofNat_of_lt' (hn.trans (by decide : 128 < UInt8.size))
      have hhead := congrArg UInt8.toNat (List.cons.inj h).1
      omega
    | long hcount' hdigits' =>
      obtain ⟨hhead, htail⟩ := List.cons.inj h
      have hlen := congrArg UInt8.toNat hhead
      obtain ⟨rfl, rfl⟩ := List.append_inj htail (by omega)
      exact ⟨rfl, rfl⟩

/-- The length bytes that are written are a spelling of the length. -/
theorem isLength_lengthBytes {n : Nat} (h : n < contentsLimit) : IsLength n (lengthBytes n) := by
  rw [lengthBytes]
  split
  next hn => exact .short hn
  next hn =>
    have hcount := byteLength_le_four h
    have hlong : IsLength (Bytes.toNatBE (Bytes.ofNat n))
        (UInt8.ofNat (128 + Bytes.byteLength n) :: Bytes.ofNat n) := by
      -- The length is at least 128, so it has digits, and they are few enough to be counted.
      refine .long ?_ fun hnil => hn ?_
      · rw [UInt8.toNat_ofNat_of_lt' (by rw [UInt8.size]; omega), Bytes.length_ofNat]
      · rw [← Bytes.toNatBE_ofNat n, hnil]
        decide
    rwa [Bytes.toNatBE_ofNat] at hlong

/-- No spelling of a length is shorter than the one that is written. -/
theorem length_lengthBytes_le_of_isLength {n : Nat} {b : Bytes} (h : IsLength n b) :
    (lengthBytes n).length ≤ b.length := by
  cases h with
  | short hn => simp [lengthBytes, hn]
  | long hcount hdigits =>
    rename_i digits
    have hbytes := Bytes.byteLength_le_iff.mpr (Bytes.toNatBE_lt digits)
    have hpos := List.length_pos_of_ne_nil hdigits
    rw [lengthBytes]
    split <;> simp only [List.length_cons, List.length_nil, Bytes.length_ofNat] <;> omega

/-- The contents of an integer that is not negative, with any number of leading zeros. -/
def IsNonNegative (contents : Bytes) : Prop :=
  ∃ x b, contents = x :: b ∧ x < 128

/-- No spelling of an integer is shorter than the one that is written. -/
theorem IsNonNegative.length_integerContents_le {contents : Bytes} (h : IsNonNegative contents) :
    (integerContents contents.toNatBE).length ≤ contents.length := by
  obtain ⟨x, b, rfl, hx⟩ := h
  have hlt : Bytes.toNatBE (x :: b) < 2 ^ (8 * b.length + 7) := by
    have hb := Bytes.toNatBE_lt b
    have hpow : 256 ^ b.length = 2 ^ (8 * b.length) := (pow_mul 2 8 b.length).symm
    have hx' : x.toNat + 1 ≤ 128 := UInt8.lt_iff_toNat_lt.mp hx
    calc Bytes.toNatBE (x :: b) = x.toNat * 256 ^ b.length + Bytes.toNatBE b :=
          Bytes.toNatBE_cons x b
      _ < (x.toNat + 1) * 256 ^ b.length := by
          rw [Nat.succ_mul]
          exact Nat.add_lt_add_left hb _
      _ ≤ 128 * 256 ^ b.length := Nat.mul_le_mul_right _ hx'
      _ = 2 ^ (8 * b.length + 7) := by rw [hpow, pow_add, mul_comm]; rfl
  have hbits := Bytes.bitLength_le_iff.mpr hlt
  rw [integerContents, Bytes.length_ofNatBE, List.length_cons]
  omega

/-- An element with its length in any spelling. -/
inductive IsElement (tag : UInt8) (contents : Bytes) : Bytes → Prop
  | mk {length : Bytes} (h : IsLength contents.length length) :
      IsElement tag contents (tag :: length ++ contents)

/-- The element that is written is a spelling of it. -/
theorem isElement_element {tag : UInt8} {contents : Bytes}
    (h : (element tag contents).length < contentsLimit) :
    IsElement tag contents (element tag contents) :=
  .mk (isLength_lengthBytes ((length_le_length_element tag contents).trans_lt h))

theorem length_append_le {a b a' b' : Bytes} (ha : a.length ≤ a'.length)
    (hb : b.length ≤ b'.length) : (a ++ b).length ≤ (a' ++ b').length := by
  rw [List.length_append, List.length_append]
  exact Nat.add_le_add ha hb

/-- No spelling of an element with as many contents bytes or more is shorter than the one that is
written. -/
theorem IsElement.length_element_le {tag : UInt8} {contents shorter x : Bytes}
    (h : IsElement tag contents x) (hle : shorter.length ≤ contents.length) :
    (element tag shorter).length ≤ x.length := by
  obtain ⟨hlength⟩ := h
  have hbytes := (length_lengthBytes_mono hle).trans (length_lengthBytes_le_of_isLength hlength)
  simp only [element, List.cons_append, List.length_cons, List.length_append]
  omega

theorem sequence_pair (a b : Bytes) : sequence [a, b] = element sequenceTag (a ++ b) := by
  simp [sequence]

/-- No part of a sequence is longer than the sequence. -/
theorem length_lt_of_sequence_pair {a b : Bytes} {bound : Nat}
    (h : (sequence [a, b]).length < bound) : a.length < bound ∧ b.length < bound := by
  have hle := length_le_length_element sequenceTag (a ++ b)
  rw [sequence_pair] at h
  rw [List.length_append] at hle
  omega

/-- An element in any spelling is read in one way, whatever follows it. -/
theorem IsElement.unique {tag tag' : UInt8} {contents contents' x y r s : Bytes}
    (hx : IsElement tag contents x) (hy : IsElement tag' contents' y) (h : x ++ r = y ++ s) :
    tag = tag' ∧ contents = contents' ∧ r = s := by
  obtain ⟨hlength⟩ := hx
  obtain ⟨hlength'⟩ := hy
  simp only [List.cons_append, List.append_assoc, List.cons.injEq] at h
  obtain ⟨htag, h⟩ := h
  obtain ⟨hcount, h⟩ := hlength.unique hlength' h
  obtain ⟨hcontents, hrest⟩ := List.append_inj h hcount
  exact ⟨htag, hcontents, hrest⟩

end Der

namespace PublicKeyInfo

/-! ## Key structures in any spelling -/

/-- A structure of an algorithm and a bit string in any spelling, with what follows it. -/
inductive IsSpelling (identifier parameters bits trailing : Bytes) : Bytes → Prop
  | mk {name algorithm held whole : Bytes}
      (hname : Der.IsElement Der.identifierTag identifier name)
      (halgorithm : Der.IsElement Der.sequenceTag (name ++ parameters) algorithm)
      (hheld : Der.IsElement Der.bitStringTag (0 :: bits) held)
      (hwhole : Der.IsElement Der.sequenceTag (algorithm ++ held) whole) :
      IsSpelling identifier parameters bits trailing (whole ++ trailing)

/-- The sequence of two integers in any spelling, with what follows it. -/
inductive IsNumbers (modulus exponent trailing : Bytes) : Bytes → Prop
  | mk {n e whole : Bytes} (hn : Der.IsElement Der.integerTag modulus n)
      (he : Der.IsElement Der.integerTag exponent e)
      (hwhole : Der.IsElement Der.sequenceTag (n ++ e) whole) :
      IsNumbers modulus exponent trailing (whole ++ trailing)

/-- A structure in any spelling is read in one way. -/
theorem IsSpelling.unique {i p b t i' p' b' t' d : Bytes} (h : IsSpelling i p b t d)
    (h' : IsSpelling i' p' b' t' d) : i = i' ∧ p = p' ∧ b = b' ∧ t = t' := by
  obtain ⟨hname, halgorithm, hheld, hwhole⟩ := h
  generalize hd : _ ++ t = d at h'
  obtain ⟨hname', halgorithm', hheld', hwhole'⟩ := h'
  -- The structure is peeled off from the outside: the sequence, the algorithm and the bit string.
  obtain ⟨-, hcontents, ht⟩ := hwhole.unique hwhole' hd
  obtain ⟨-, halg, hrest⟩ := halgorithm.unique halgorithm' hcontents
  obtain ⟨-, hi, hp⟩ := hname.unique hname' halg
  obtain ⟨-, hbits, -⟩ := hheld.unique (r := []) (s := []) hheld' (by simpa using hrest)
  exact ⟨hi, hp, (List.cons.inj hbits).2, ht⟩

/-- A sequence of two integers is read in one way, however it is spelled. -/
theorem IsNumbers.unique {m e t m' e' t' d : Bytes} (h : IsNumbers m e t d)
    (h' : IsNumbers m' e' t' d) : m = m' ∧ e = e' ∧ t = t' := by
  obtain ⟨hm, he, hwhole⟩ := h
  generalize hd : _ ++ t = d at h'
  obtain ⟨hm', he', hwhole'⟩ := h'
  obtain ⟨-, hcontents, ht⟩ := hwhole.unique hwhole' hd
  obtain ⟨-, hmodulus, hrest⟩ := hm.unique hm' hcontents
  obtain ⟨-, hexponent, -⟩ := he.unique (r := []) (s := []) he' (by simpa using hrest)
  exact ⟨hmodulus, hexponent, ht⟩

/-- A structure starts with a sequence and the numbers with an integer, so they are not the same. -/
theorem IsSpelling.not_isNumbers {i p b t m e s d : Bytes} (h : IsSpelling i p b t d) :
    ¬ IsNumbers m e s d := by
  intro h'
  obtain ⟨hname, halgorithm, hheld, hwhole⟩ := h
  generalize hd : _ ++ t = d at h'
  obtain ⟨hm, he, hwhole'⟩ := h'
  obtain ⟨-, hcontents, -⟩ := hwhole.unique hwhole' hd
  exact absurd (halgorithm.unique hm hcontents).1 (by decide)

/-- What follows a structure is no part of its spelling. -/
theorem IsSpelling.append {i p b d : Bytes} (h : IsSpelling i p b [] d) (trailing : Bytes) :
    IsSpelling i p b trailing (d ++ trailing) := by
  obtain ⟨hname, halgorithm, hheld, hwhole⟩ := h
  rw [List.append_nil]
  exact .mk hname halgorithm hheld hwhole

/-- What is written of an algorithm and a bit string is a spelling of them. -/
theorem isSpelling_sequence {identifier parameters bits : Bytes}
    (h : (Der.sequence [Der.sequence [Der.identifier identifier, parameters],
      Der.bitString bits]).length < Der.contentsLimit) :
    IsSpelling identifier parameters bits [] (Der.sequence
      [Der.sequence [Der.identifier identifier, parameters], Der.bitString bits]) := by
  -- Every part is shorter than the whole, so its length has a form as well.
  obtain ⟨halgorithm, hheld⟩ := Der.length_lt_of_sequence_pair h
  obtain ⟨hname, -⟩ := Der.length_lt_of_sequence_pair halgorithm
  rw [Der.sequence_pair] at h halgorithm ⊢
  rw [Der.sequence_pair] at h ⊢
  have hspelling : IsSpelling identifier parameters bits [] (_ ++ []) :=
    .mk (Der.isElement_element hname) (Der.isElement_element halgorithm)
      (Der.isElement_element hheld) (Der.isElement_element h)
  rwa [List.append_nil] at hspelling

/-- The structure of an RSA key that is written is a spelling of it. -/
theorem isSpelling_encodeRsa {n e : Nat} (hn : Rsa.IsSized n) (he : e < n) :
    IsSpelling KeyAlgorithm.rsaIdentifier Der.null (encodeRsaNumbers n e) [] (encodeRsa n e) :=
  isSpelling_sequence (length_encodeRsa_lt (hn.byteLength_le le_rfl) (hn.byteLength_le he.le))

/-- The structure of a key on a curve that is written is a spelling of it. -/
theorem isSpelling_encodeEc (c : NamedCurve) (x y : Nat) :
    IsSpelling KeyAlgorithm.ecIdentifier (Der.identifier c.identifier) (c.curve.uncompressed x y) []
      (encodeEc c x y) :=
  isSpelling_sequence (length_encodeEc_lt c x y)

/-- The sequence of two numbers that is written is a spelling of it. -/
theorem isNumbers_encodeRsaNumbers {n e : Nat} (hn : Rsa.IsSized n) (he : e < n) :
    IsNumbers (Der.integerContents n) (Der.integerContents e) [] (encodeRsaNumbers n e) := by
  have hlen := length_encodeRsaNumbers_le (hn.byteLength_le le_rfl) (hn.byteLength_le he.le)
  have hwhole := hlen.trans_lt (by decide : _ < Der.contentsLimit)
  obtain ⟨hmodulus, hexponent⟩ := Der.length_lt_of_sequence_pair hwhole
  rw [encodeRsaNumbers, Der.sequence_pair] at hwhole ⊢
  have hnumbers : IsNumbers (Der.integerContents n) (Der.integerContents e) [] (_ ++ []) :=
    .mk (Der.isElement_element hmodulus) (Der.isElement_element hexponent)
      (Der.isElement_element hwhole)
  rwa [List.append_nil] at hnumbers

/-- No spelling of the numbers of an RSA key in a structure with null parameters is shorter than the
one that is written. -/
theorem IsSpelling.length_encodeRsa_le {b t m e s d : Bytes}
    (h : IsSpelling KeyAlgorithm.rsaIdentifier Der.null b t d) (hb : IsNumbers m e s b)
    (hm : Der.IsNonNegative m) (he : Der.IsNonNegative e) :
    (encodeRsa m.toNatBE e.toNatBE).length ≤ d.length := by
  -- From the inside out, each element is no shorter than what is written of it.
  obtain @⟨n, x, numbers, hn, hx, hnumbers⟩ := hb
  obtain @⟨name, algorithm, held, whole, hname, halgorithm, hheld, hwhole⟩ := h
  have hnumbers : (encodeRsaNumbers m.toNatBE e.toNatBE).length ≤ numbers.length := by
    have hparts := Der.length_append_le (hn.length_element_le hm.length_integerContents_le)
      (hx.length_element_le he.length_integerContents_le)
    rw [encodeRsaNumbers, Der.sequence_pair]
    exact hnumbers.length_element_le hparts
  have hbits : (Der.bitString (encodeRsaNumbers m.toNatBE e.toNatBE)).length ≤ held.length := by
    refine hheld.length_element_le (Nat.succ_le_succ ?_)
    rw [List.length_append]
    exact Nat.le_add_right_of_le hnumbers
  have halgorithm : KeyAlgorithm.rsaElement.length ≤ algorithm.length := by
    have hparts := Der.length_append_le (hname.length_element_le le_rfl) (le_refl Der.null.length)
    rw [KeyAlgorithm.rsaElement, Der.sequence_pair]
    exact halgorithm.length_element_le hparts
  rw [encodeRsa, Der.sequence_pair, List.length_append]
  exact Nat.le_add_right_of_le (hwhole.length_element_le (Der.length_append_le halgorithm hbits))

/-- The structure of a point of P-256: 26 bytes that are always the same, and the uncompressed
point. -/
theorem encodeEc_secp256r1 (x y : Nat) : encodeEc .secp256r1 x y =
    [0x30, 0x59, 0x30, 0x13, 0x06, 0x07, 0x2a, 0x86, 0x48, 0xce, 0x3d, 0x02, 0x01, 0x06, 0x08, 0x2a,
      0x86, 0x48, 0xce, 0x3d, 0x03, 0x01, 0x07, 0x03, 0x42, 0x00] ++
      0x04 :: (Bytes.ofNatBE 32 x ++ Bytes.ofNatBE 32 y) := by
  have helement : KeyAlgorithm.ecElement .secp256r1 = [0x30, 0x13, 0x06, 0x07, 0x2a, 0x86, 0x48,
      0xce, 0x3d, 0x02, 0x01, 0x06, 0x08, 0x2a, 0x86, 0x48, 0xce, 0x3d, 0x03, 0x01, 0x07] := by
    decide
  have hfield : Curve.secp256r1.fieldLength = 32 := by decide +kernel
  have hheld : Der.bitString (Curve.secp256r1.uncompressed x y) =
      0x03 :: 0x42 :: 0x00 :: 0x04 :: (Bytes.ofNatBE 32 x ++ Bytes.ofNatBE 32 y) := by
    simp [Der.bitString, Der.element, Curve.uncompressed, hfield, Der.lengthBytes,
      Der.bitStringTag]
  rw [encodeEc, Der.sequence_pair, helement, NamedCurve.curve, hheld]
  simp [Der.element, Der.lengthBytes, Der.sequenceTag]

end PublicKeyInfo

namespace PublicKey

open PublicKeyInfo

/-! ## Accepted encodings -/

/-- The accepted encodings of RSA keys are the written structures of numbers in range. -/
theorem isEncoding_rsa_iff {b : Bytes} : IsEncoding .rsa b ↔
    ∃ n e, Rsa.IsSized n ∧ IsExponent n e ∧ b = encodeRsa n e := by
  rw [isEncoding_iff]
  constructor
  · rintro ⟨k, hreadable, htype, rfl⟩
    obtain ⟨k, rfl⟩ := eq_rsa_of_keyType htype
    exact ⟨k.n, k.e, k.sized, hreadable, rfl⟩
  · rintro ⟨n, e, hn, he, rfl⟩
    exact ⟨rsa ⟨n, e, hn⟩, he, rfl, rfl⟩

/-- The accepted encodings of ECDSA keys are the written structures of points of P-256. -/
theorem isEncoding_ecdsa_iff {b : Bytes} : IsEncoding .ecdsa b ↔
    ∃ x y, Curve.secp256r1.IsOn x y ∧ b = encodeEc .secp256r1 x y := by
  rw [isEncoding_iff]
  constructor
  · rintro ⟨k, -, htype, rfl⟩
    cases k with
    | ecdsa k => exact ⟨k.point.x, k.point.y, k.point.isOn, rfl⟩
    | _ => cases htype
  · rintro ⟨x, y, hon, rfl⟩
    exact ⟨ecdsa ⟨⟨x, y, hon⟩⟩, trivial, rfl, rfl⟩

/-- The exponents of the RSA keys that the reader of structures finds. -/
theorem exists_decode?_iff {n e : Nat} (hn : Rsa.IsSized n) :
    (∃ b, PublicKeyInfo.decode? b = some (.rsa n e)) ↔ IsExponent n e :=
  ⟨fun ⟨_, h⟩ => isExponent_of_decode? h, fun he => ⟨_, decode?_encodeRsa hn he⟩⟩

/-- The coordinates of a point of P-256 are its 32 bytes each. -/
theorem isEncoding_ecdsa_iff_bytes {b : Bytes} : IsEncoding .ecdsa b ↔
    ∃ x y : Bytes, x.length = 32 ∧ y.length = 32 ∧
      Curve.secp256r1.IsOn x.toNatBE y.toNatBE ∧
      b = [0x30, 0x59, 0x30, 0x13, 0x06, 0x07, 0x2a, 0x86, 0x48, 0xce, 0x3d, 0x02, 0x01, 0x06, 0x08,
        0x2a, 0x86, 0x48, 0xce, 0x3d, 0x03, 0x01, 0x07, 0x03, 0x42, 0x00] ++ 0x04 :: (x ++ y) := by
  rw [isEncoding_ecdsa_iff]
  constructor
  · rintro ⟨x, y, hon, rfl⟩
    have hp : Curve.secp256r1.p < 256 ^ 32 := by decide
    refine ⟨Bytes.ofNatBE 32 x, Bytes.ofNatBE 32 y, Bytes.length_ofNatBE _ _,
      Bytes.length_ofNatBE _ _, ?_, encodeEc_secp256r1 x y⟩
    rwa [Bytes.toNatBE_ofNatBE (hon.1.trans hp), Bytes.toNatBE_ofNatBE (hon.2.1.trans hp)]
  · rintro ⟨x, y, hx, hy, hon, rfl⟩
    refine ⟨_, _, hon, ?_⟩
    rw [encodeEc_secp256r1, ← hx, Bytes.ofNatBE_toNatBE, hx, ← hy, Bytes.ofNatBE_toNatBE]

/-! ## Other spellings -/

/-- Of the structures that are spelled with given parts, the one of an accepted RSA key has the
parts that are written. -/
theorem isEncoding_rsa_of_isSpelling {i p b t m e s d : Bytes} (h : IsSpelling i p b t d)
    (hb : IsNumbers m e s b) : IsEncoding .rsa d ↔
      i = KeyAlgorithm.rsaIdentifier ∧ p = Der.null ∧ t = [] ∧ s = [] ∧
      m = Der.integerContents m.toNatBE ∧ e = Der.integerContents e.toNatBE ∧
      Rsa.IsSized m.toNatBE ∧ IsExponent m.toNatBE e.toNatBE ∧
      d = encodeRsa m.toNatBE e.toNatBE := by
  rw [isEncoding_rsa_iff]
  constructor
  · rintro ⟨n, x, hn, hx, rfl⟩
    obtain ⟨rfl, rfl, rfl, rfl⟩ := h.unique (isSpelling_encodeRsa hn hx.2.2)
    obtain ⟨rfl, rfl, rfl⟩ := hb.unique (isNumbers_encodeRsaNumbers hn hx.2.2)
    simp only [Der.toNatBE_integerContents]
    exact ⟨trivial, trivial, trivial, trivial, trivial, trivial, hn, hx, trivial⟩
  · rintro ⟨-, -, -, -, -, -, hn, hx, rfl⟩
    exact ⟨_, _, hn, hx, rfl⟩

/-- Of all spellings of structures, the one that is written of a point of P-256 is accepted. -/
theorem isEncoding_ecdsa_of_isSpelling {i p b t d : Bytes} (h : IsSpelling i p b t d) :
    IsEncoding .ecdsa d ↔
      i = KeyAlgorithm.ecIdentifier ∧ p = Der.identifier NamedCurve.secp256r1.identifier ∧ t = [] ∧
      ∃ x y, Curve.secp256r1.IsOn x y ∧ b = Curve.secp256r1.uncompressed x y ∧
        d = encodeEc .secp256r1 x y := by
  rw [isEncoding_ecdsa_iff]
  constructor
  · rintro ⟨x, y, hon, rfl⟩
    obtain ⟨rfl, rfl, rfl, rfl⟩ := h.unique (isSpelling_encodeEc .secp256r1 x y)
    exact ⟨rfl, rfl, rfl, x, y, hon, rfl, rfl⟩
  · rintro ⟨-, -, -, x, y, hon, -, rfl⟩
    exact ⟨x, y, hon, rfl⟩

/-- The numbers of an RSA key without a structure around them are not accepted. -/
theorem not_isEncoding_rsa_of_isNumbers {m e t d : Bytes} (h : IsNumbers m e t d) :
    ¬ IsEncoding .rsa d := by
  rw [isEncoding_rsa_iff]
  rintro ⟨n, x, hn, hx, rfl⟩
  exact (isSpelling_encodeRsa hn hx.2.2).not_isNumbers h

/-- Nothing can follow the accepted encoding of an RSA key or of a key on P-256. -/
theorem not_isEncoding_append {t : KeyType} (ht : t = .rsa ∨ t = .ecdsa) {d rest : Bytes}
    (h : IsEncoding t d) (hrest : rest ≠ []) : ¬ IsEncoding t (d ++ rest) := by
  intro happend
  -- What follows is trailing in a spelling, and the accepted spelling has nothing that trails.
  rcases ht with rfl | rfl
  · obtain ⟨n, e, hn, he, rfl⟩ := isEncoding_rsa_iff.mp h
    have hspelling := (isSpelling_encodeRsa hn he.2.2).append rest
    have hnumbers := isNumbers_encodeRsaNumbers hn he.2.2
    obtain ⟨-, -, htrailing, -⟩ := (isEncoding_rsa_of_isSpelling hspelling hnumbers).mp happend
    exact hrest htrailing
  · obtain ⟨x, y, -, rfl⟩ := isEncoding_ecdsa_iff.mp h
    have hspelling := (isSpelling_encodeEc .secp256r1 x y).append rest
    obtain ⟨-, -, htrailing, -⟩ := (isEncoding_ecdsa_of_isSpelling hspelling).mp happend
    exact hrest htrailing

/-- Encodings that the reader of structures takes for the same key are the same. -/
theorem isEncoding_unique {t : KeyType} (ht : t = .rsa ∨ t = .ecdsa) {d d' : Bytes}
    (h : IsEncoding t d) (h' : IsEncoding t d')
    (hsame : PublicKeyInfo.decode? d = PublicKeyInfo.decode? d') : d = d' := by
  rcases ht with rfl | rfl
  · obtain ⟨n, e, hn, he, rfl⟩ := isEncoding_rsa_iff.mp h
    obtain ⟨m, x, hm, hx, rfl⟩ := isEncoding_rsa_iff.mp h'
    rw [decode?_encodeRsa hn he, decode?_encodeRsa hm hx] at hsame
    cases hsame
    rfl
  · obtain ⟨x, y, hon, rfl⟩ := isEncoding_ecdsa_iff.mp h
    obtain ⟨x', y', hon', rfl⟩ := isEncoding_ecdsa_iff.mp h'
    rw [decode?_encodeEc (c := .secp256r1) hon, decode?_encodeEc (c := .secp256r1) hon'] at hsame
    cases hsame
    rfl

/-- RSA and P-256 keys have one accepted encoding each. For P-256 it is 91 bytes: 26 bytes that are
always the same, the byte 4 and the coordinates of a point of the curve. For RSA it is the structure
with null parameters of a modulus of 2048 to 8192 bits and an exponent that the reader of structures
admits. Two accepted encodings never hold the same key. Of all structures that can be spelled, the
accepted ones have this identifier and these parameters, integers as they are written, an
uncompressed point, and nothing that follows, and for RSA they are the shortest with their numbers.
The numbers of an RSA key alone are not accepted, and what is not accepted is refused with an error
that names the algorithm. -/
theorem one_encoding :
    (∀ d, IsEncoding .ecdsa d ↔ ∃ x y : Bytes, x.length = 32 ∧ y.length = 32 ∧
      Curve.secp256r1.IsOn x.toNatBE y.toNatBE ∧
      d = [0x30, 0x59, 0x30, 0x13, 0x06, 0x07, 0x2a, 0x86, 0x48, 0xce, 0x3d, 0x02, 0x01, 0x06, 0x08,
        0x2a, 0x86, 0x48, 0xce, 0x3d, 0x03, 0x01, 0x07, 0x03, 0x42, 0x00] ++ 0x04 :: (x ++ y)) ∧
    (∀ d, IsEncoding .ecdsa d → d.length = 91) ∧
    (∀ d, IsEncoding .rsa d ↔ ∃ n e, (∃ b, PublicKeyInfo.decode? b = some (.rsa n e)) ∧
      2048 ≤ Bytes.bitLength n ∧ Bytes.bitLength n ≤ 8192 ∧
      d = Der.sequence [[0x30, 0x0d, 0x06, 0x09, 0x2a, 0x86, 0x48, 0x86, 0xf7, 0x0d, 0x01, 0x01,
        0x01, 0x05, 0x00], Der.bitString (Der.sequence [Der.integer n, Der.integer e])]) ∧
    (∀ t d d', t = .rsa ∨ t = .ecdsa → IsEncoding t d → IsEncoding t d' →
      PublicKeyInfo.decode? d = PublicKeyInfo.decode? d' → d = d') ∧
    (∀ i p b t d, IsSpelling i p b t d → (IsEncoding .ecdsa d ↔
      i = KeyAlgorithm.ecIdentifier ∧ p = Der.identifier NamedCurve.secp256r1.identifier ∧ t = [] ∧
      ∃ x y, Curve.secp256r1.IsOn x y ∧ b = Curve.secp256r1.uncompressed x y ∧
        d = encodeEc .secp256r1 x y)) ∧
    (∀ i p b t m e s d, IsSpelling i p b t d → IsNumbers m e s b → (IsEncoding .rsa d ↔
      i = KeyAlgorithm.rsaIdentifier ∧ p = Der.null ∧ t = [] ∧ s = [] ∧
      m = Der.integerContents m.toNatBE ∧ e = Der.integerContents e.toNatBE ∧
      Rsa.IsSized m.toNatBE ∧ IsExponent m.toNatBE e.toNatBE ∧
      d = encodeRsa m.toNatBE e.toNatBE)) ∧
    (∀ b t m e s d, IsSpelling KeyAlgorithm.rsaIdentifier Der.null b t d → IsNumbers m e s b →
      Der.IsNonNegative m → Der.IsNonNegative e →
      (encodeRsa m.toNatBE e.toNatBE).length ≤ d.length) ∧
    (∀ m e t d, IsNumbers m e t d → ¬ IsEncoding .rsa d) ∧
    (∀ t d rest, t = .rsa ∨ t = .ecdsa → IsEncoding t d → rest ≠ [] → ¬ IsEncoding t (d ++ rest)) ∧
    ∀ t d, ¬ IsEncoding t d → ∃ detail, ofRaw t d = .error (.decoding (some t) detail) := by
  refine ⟨fun d => isEncoding_ecdsa_iff_bytes, fun d h => ?_, fun d => ?_,
    fun t d d' ht h h' => isEncoding_unique ht h h',
    fun i p b t d => isEncoding_ecdsa_of_isSpelling,
    fun i p b t m e s d => isEncoding_rsa_of_isSpelling,
    fun b t m e s d => IsSpelling.length_encodeRsa_le,
    fun m e t d => not_isEncoding_rsa_of_isNumbers,
    fun t d rest ht h => not_isEncoding_append ht h, fun t d => refused_of_not_isEncoding⟩
  · obtain ⟨x, y, hx, hy, -, rfl⟩ := isEncoding_ecdsa_iff_bytes.mp h
    simp [hx, hy]
  · rw [isEncoding_rsa_iff]
    refine exists₂_congr fun n e => ⟨fun ⟨hn, he, hd⟩ => ?_, fun ⟨he, hmin, hmax, hd⟩ => ?_⟩
    · exact ⟨(exists_decode?_iff hn).mpr he, hn.1, hn.2, hd⟩
    · exact ⟨⟨hmin, hmax⟩, (exists_decode?_iff ⟨hmin, hmax⟩).mp he, hd⟩

/-- The structure of the base point of P-256 is accepted. The structure with the compressed point is
read as the same key and is refused. -/
theorem one_encoding_at_base_point :
    let x := Curve.secp256r1.gx
    let y := Curve.secp256r1.gy
    let compressed := Der.sequence [KeyAlgorithm.ecElement .secp256r1,
      Der.bitString (Curve.secp256r1.compressed x y)]
    IsEncoding .ecdsa (encodeEc .secp256r1 x y) ∧
      PublicKeyInfo.decode? compressed = PublicKeyInfo.decode? (encodeEc .secp256r1 x y) ∧
      ∃ detail, ofRaw .ecdsa compressed = .error (.decoding (some .ecdsa) detail) := by
  intro x y compressed
  obtain ⟨-, -, -, -, hec, -, -, -, -, hrefused⟩ := one_encoding
  have hon : Curve.secp256r1.IsOn x y := by decide +kernel
  refine ⟨isEncoding_ecdsa_iff.mpr ⟨x, y, hon, rfl⟩, by decide +kernel, hrefused _ _ ?_⟩
  have hspelling : IsSpelling KeyAlgorithm.ecIdentifier
      (Der.identifier NamedCurve.secp256r1.identifier) (Curve.secp256r1.compressed x y) []
      compressed := isSpelling_sequence (by decide +kernel)
  rw [hec _ _ _ _ _ hspelling]
  rintro ⟨-, -, -, x', y', -, hpoint, -⟩
  have hlen := congrArg List.length hpoint
  rw [Curve.length_compressed, Curve.length_uncompressed] at hlen
  exact absurd hlen (by decide +kernel)

end PublicKey

end PeerIdentity
