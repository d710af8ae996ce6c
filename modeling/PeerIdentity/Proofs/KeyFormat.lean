import PeerIdentity.KeyFormat.PrivateKeyInfo
import PeerIdentity.KeyFormat.PublicKeyInfo
import PeerIdentity.Key.Rsa
import PeerIdentity.Proofs.Der
import PeerIdentity.Proofs.Points

/-!
# Reading back key structures

The one written form of a key is read as that key, by the readers that take structures of any
algorithm.

* `PrivateKeyInfo.decode?_encodeRsa`, `PrivateKeyInfo.decode?_encodeEc`: private keys;
* `PrivateKeyInfo.isConsistent_of_decode?`: no other numbers than consistent ones are read;
* `PublicKeyInfo.decode?_encodeRsa`, `PublicKeyInfo.decode?_encodeEc`: public keys, an RSA key only
  if its exponent is odd, at least 3 and below the modulus;
* `PublicKeyInfo.isExponent_of_decode?`: no other RSA key is read;
* `PublicKeyInfo.encodeRsa_injective`: a written RSA key has one pair of numbers.
-/

namespace PeerIdentity

open Der (contentsLimit)

/-! ## Sizes -/

/-- A modulus of an accepted size is no longer than the product of the exponents of a key may be. -/
theorem Rsa.IsSized.byteLength_le {n m : Nat} (hn : Rsa.IsSized n) (hm : m ≤ n) :
    Bytes.byteLength m ≤ Rsa.maxProductLength := by
  have hbytes := Bytes.byteLength_mono hm
  have hbits := hn.2
  simp only [Bytes.byteLength, maxRsaBits, Rsa.maxProductLength] at hbytes hbits ⊢
  omega

/-- The numbers of a consistent key of an accepted size are no longer than the product of its
exponents may be. -/
theorem Rsa.PrivateNumbers.IsConsistent.byteLength_le {k : Rsa.PrivateNumbers} (hk : k.IsConsistent)
    (hn : Rsa.IsSized k.n) {m : Nat}
    (hm : m ∈ [0, k.n, k.e, k.d, k.p, k.q, k.dp, k.dq, k.qinv]) :
    Bytes.byteLength m ≤ Rsa.maxProductLength := by
  obtain ⟨hp, hq, hnpq, he, hinv, hlen, hdp, hdq, hqinv, -⟩ := hk
  have hd : 0 < k.d := by
    rcases Nat.eq_zero_or_pos k.d with hd | hd
    · simp [hd] at hinv
    · exact hd
  -- Every number is at most the modulus or the product of the exponents.
  have hle_n {m : Nat} (h : m ≤ k.n) : Bytes.byteLength m ≤ Rsa.maxProductLength :=
    hn.byteLength_le h
  have hle_de {m : Nat} (h : m ≤ k.d * k.e) : Bytes.byteLength m ≤ Rsa.maxProductLength :=
    Nat.le_trans (Bytes.byteLength_mono h) hlen
  have hpn : k.p ≤ k.n := hnpq ▸ Nat.le_mul_of_pos_right _ (by omega)
  have hqn : k.q ≤ k.n := hnpq ▸ Nat.le_mul_of_pos_left _ (by omega)
  have hdde : k.d ≤ k.d * k.e := Nat.le_mul_of_pos_right _ (by omega)
  have hede : k.e ≤ k.d * k.e := Nat.le_mul_of_pos_left _ hd
  simp only [List.mem_cons, List.not_mem_nil, or_false] at hm
  rcases hm with rfl | rfl | rfl | rfl | rfl | rfl | rfl | rfl | rfl
  · exact hle_n (Nat.zero_le _)
  · exact hle_n le_rfl
  · exact hle_de hede
  · exact hle_de hdde
  · exact hle_n hpn
  · exact hle_n hqn
  · exact hle_de (hdp ▸ Nat.le_trans (Nat.mod_le _ _) hdde)
  · exact hle_de (hdq ▸ Nat.le_trans (Nat.mod_le _ _) hdde)
  · exact hle_n (by omega)

/-- The numbers of all named curves fit into 66 bytes. -/
theorem NamedCurve.length_le (c : NamedCurve) :
    c.curve.scalarLength ≤ 66 ∧ c.curve.fieldLength ≤ 66 := by
  cases c <;> decide +kernel

namespace KeyAlgorithm

/-! ## Algorithms -/

/-- The algorithm of an RSA key is read back. -/
theorem decode?_rsaParts : decode? [Der.identifier rsaIdentifier, Der.null].flatten = some rsa := by
  decide

theorem length_rsaParts : [Der.identifier rsaIdentifier, Der.null].flatten.length = 13 := by
  decide

/-- The algorithm of a key on a named curve is read back. -/
theorem decode?_ecParts (c : NamedCurve) :
    decode? [Der.identifier ecIdentifier, Der.identifier c.identifier].flatten = some (.ec c) := by
  cases c <;> decide

/-- The algorithm of a key on a named curve takes at most 20 bytes. -/
theorem length_ecParts_le (c : NamedCurve) :
    [Der.identifier ecIdentifier, Der.identifier c.identifier].flatten.length ≤ 20 := by
  cases c <;> decide

/-- A named curve is read back from its identifier. -/
theorem namedCurve?_identifier (c : NamedCurve) :
    namedCurve? (Der.identifier c.identifier) = some c := by
  cases c <;> decide

/-- The identifier of a named curve takes at most eleven bytes. -/
theorem length_identifier_le (c : NamedCurve) : (Der.identifier c.identifier).length ≤ 11 := by
  cases c <;> decide

end KeyAlgorithm

namespace PrivateKeyInfo

/-! ## Private keys -/

/-! ### RSA -/

section Structure

variable (algorithm : List Bytes) (octets : Bytes)
  (hlen : algorithm.flatten.length + octets.length + 15 < contentsLimit)
include hlen

/-- A private key structure has at most 15 bytes in it beside the algorithm and the key. -/
theorem length_contents_le :
    [Der.integer 0, Der.sequence algorithm, Der.element Der.octetStringTag octets].flatten.length ≤
      algorithm.flatten.length + octets.length + 15 := by
  have halgorithm := Der.length_element_le Der.sequenceTag algorithm.flatten (by omega)
  have hoctets := Der.length_element_le Der.octetStringTag octets (by omega)
  have hzero : (Der.integer 0).length = 3 := by decide
  simp only [List.flatten_cons, List.flatten_nil, List.append_nil, List.length_append, Der.sequence]
  omega

/-- A private key structure is at most 21 bytes longer than the algorithm and the key. -/
theorem length_sequence_le :
    (Der.sequence [Der.integer 0, Der.sequence algorithm,
      Der.element Der.octetStringTag octets]).length ≤
        algorithm.flatten.length + octets.length + 21 :=
  Der.length_sequence_le (length_contents_le _ _ hlen) hlen

/-- A structure of an algorithm and a string of bytes is read as the key that the bytes hold. -/
theorem decodeStructure?_sequence {a : KeyAlgorithm}
    (ha : KeyAlgorithm.decode? algorithm.flatten = some a) :
    decodeStructure? (Der.sequence [Der.integer 0, Der.sequence algorithm,
      Der.element Der.octetStringTag octets]) = ofOctets? a octets := by
  have halgorithm : algorithm.flatten.length < contentsLimit := by omega
  have hoctets : octets.length < contentsLimit := by omega
  have hcontents := Nat.lt_of_le_of_lt (length_contents_le _ _ hlen) hlen
  rw [Der.sequence] at hcontents
  rw [decodeStructure?, Der.sequence, Der.sequence, Der.whole?_element (by decide) hcontents]
  simp only [List.flatten_cons, List.flatten_nil, Option.bind_eq_bind, Option.bind_some]
  rw [Der.readInteger?_integer (by decide), Option.bind_some,
    Der.read?_element (by decide) halgorithm, Option.bind_some,
    Der.read?_element (by decide) hoctets, Option.bind_some, ha]
  rfl

end Structure

section Rsa

variable {k : Rsa.PrivateNumbers} (hk : k.IsConsistent) (hn : Rsa.IsSized k.n)
include hk hn

/-- The nine numbers of a consistent key have a bounded length. -/
theorem length_rsaContents_le :
    ([0, k.n, k.e, k.d, k.p, k.q, k.dp, k.dq, k.qinv].map Der.integer).flatten.length ≤
      9 * (Rsa.maxProductLength + 7) :=
  Der.length_flatten_integer_le (by decide) fun _ hm => hk.byteLength_le hn hm

/-- The nine numbers of a consistent key are read back. -/
theorem decodeRsaNumbers?_encodeRsaNumbers :
    decodeRsaNumbers? (encodeRsaNumbers k) = some (rsa k) := by
  have hcontents := Nat.lt_of_le_of_lt (length_rsaContents_le hk hn)
    (by decide : 9 * (Rsa.maxProductLength + 7) < contentsLimit)
  have hintegers : Der.integers? 9 _ = some [0, k.n, k.e, k.d, k.p, k.q, k.dp, k.dq, k.qinv] :=
    Der.integers?_flatten fun m hm =>
      Nat.lt_of_le_of_lt (Nat.add_le_add_right (hk.byteLength_le hn hm) 1) (by decide)
  rw [decodeRsaNumbers?, encodeRsaNumbers, Der.sequence, Der.whole?_element (by decide) hcontents]
  simp only [Option.bind_eq_bind, Option.bind_some]
  rw [hintegers]
  exact if_pos hk

/-- The sequence of the nine numbers has a bounded length. -/
theorem length_encodeRsaNumbers_le :
    (encodeRsaNumbers k).length ≤ 9 * (Rsa.maxProductLength + 7) + 6 :=
  Der.length_sequence_le (length_rsaContents_le hk hn) (by decide)

/-- The structure around the nine numbers is short enough to be read. -/
theorem length_rsaStructure_lt :
    [Der.identifier KeyAlgorithm.rsaIdentifier, Der.null].flatten.length +
      (encodeRsaNumbers k).length + 21 < contentsLimit := by
  have hlen := length_encodeRsaNumbers_le hk hn
  have hmax : 9 * (Rsa.maxProductLength + 7) + 40 < contentsLimit := by decide
  rw [KeyAlgorithm.length_rsaParts]
  omega

/-- The structure of a consistent key is short enough to be read. -/
theorem length_encodeRsa_lt : (encodeRsa k).length < contentsLimit := by
  have hlen := length_rsaStructure_lt hk hn
  have hle := length_sequence_le [Der.identifier KeyAlgorithm.rsaIdentifier, Der.null]
    (encodeRsaNumbers k) (by omega)
  exact Nat.lt_of_le_of_lt hle hlen

/-- The written form of an RSA key is read as that key. -/
theorem decode?_encodeRsa : decode? (encodeRsa k) = some (rsa k) := by
  have hlen := length_rsaStructure_lt hk hn
  have hstructure : decodeStructure? (encodeRsa k) = some (rsa k) :=
    (decodeStructure?_sequence _ _ (by omega) KeyAlgorithm.decode?_rsaParts).trans
      (decodeRsaNumbers?_encodeRsaNumbers hk hn)
  rw [decode?, hstructure]
  rfl

end Rsa

/-! ### Curves -/

/-- The curve and the public point of a key are read back. -/
theorem decodeEcFields?_elements {c : NamedCurve} {point : Bytes}
    (hpoint : (Der.bitString point).length < contentsLimit)
    (hlen : point.length + 1 < contentsLimit) :
    decodeEcFields? (Der.element (Der.fieldTag 0) (Der.identifier c.identifier) ++
      Der.element (Der.fieldTag 1) (Der.bitString point)) = some (some c, some point) := by
  have hcurve : (Der.identifier c.identifier).length < contentsLimit :=
    Nat.lt_of_le_of_lt (KeyAlgorithm.length_identifier_le c) (by decide)
  have hfields : (Der.fieldTag 0).toNat % 32 < 31 ∧ (Der.fieldTag 1).toNat % 32 < 31 := by decide
  have hfirst := Der.readOptional?_element hfields.1 hcurve
    (Der.element (Der.fieldTag 1) (Der.bitString point))
  have hsecond := Der.readOptional?_element hfields.2 hpoint []
  rw [List.append_nil] at hsecond
  simp [decodeEcFields?, hfirst, hsecond, KeyAlgorithm.namedCurve?_identifier,
    Der.wholeBitString?_bitString hlen]

/-- The scalar of a key and the form of its point are read as the key. -/
theorem ofScalar?_ofNatBE {c : NamedCurve} {k x y : Nat} (hk : 0 < k ∧ k < c.curve.order)
    (hmul : c.curve.mul k c.curve.base = .affine x y) (hon : c.curve.IsOn x y) :
    ofScalar? c (Bytes.ofNatBE c.curve.scalarLength k) (some (c.curve.uncompressed x y)) =
      some (ec c k x y) := by
  have hvalue := Bytes.toNatBE_ofNatBE (Curve.lt_pow_scalarLength hk.2)
  simp [ofScalar?, hvalue, hk, hmul, Curve.decodePoint?_uncompressed hon]

/-- The contents of the structure of a key on a named curve take at most 238 bytes. -/
theorem length_ecContents_le (c : NamedCurve) (k x y : Nat) :
    [Der.integer 1, Der.element Der.octetStringTag (Bytes.ofNatBE c.curve.scalarLength k),
      Der.element (Der.fieldTag 0) (Der.identifier c.identifier),
      Der.element (Der.fieldTag 1) (Der.bitString (c.curve.uncompressed x y))].flatten.length ≤
        238 := by
  obtain ⟨hscalar, hfield⟩ := c.length_le
  have hlimit : contentsLimit = 4294967296 := rfl
  -- The bound is the sum of those of the four elements, each with its tag and its length.
  have hone : (Der.integer 1).length = 3 := by decide
  have hidentifier := KeyAlgorithm.length_identifier_le c
  have hpoint : (c.curve.uncompressed x y).length ≤ 133 := by
    rw [Curve.length_uncompressed]
    omega
  have hbits := Der.length_bitString_le (b := c.curve.uncompressed x y) (by omega)
  have hoctets := Der.length_element_le Der.octetStringTag (Bytes.ofNatBE c.curve.scalarLength k)
    (by rw [Bytes.length_ofNatBE]; omega)
  have hfirst := Der.length_element_le (Der.fieldTag 0) (Der.identifier c.identifier) (by omega)
  have hsecond := Der.length_element_le (Der.fieldTag 1)
    (Der.bitString (c.curve.uncompressed x y)) (by omega)
  rw [Bytes.length_ofNatBE] at hoctets
  simp only [List.flatten_cons, List.flatten_nil, List.append_nil, List.length_append]
  omega

/-- The structure of a private key on a named curve is short enough to be read. -/
theorem length_encodeEc_lt (c : NamedCurve) (k x y : Nat) :
    (encodeEc c k x y).length < contentsLimit :=
  Nat.lt_of_le_of_lt (Der.length_sequence_le (length_ecContents_le c k x y) (by decide)) (by decide)

/-- The contents of the structure of a key on a curve. -/
theorem whole?_encodeEc (c : NamedCurve) (k x y : Nat) :
    Der.whole? Der.sequenceTag (encodeEc c k x y) = some (Der.integer 1 ++
      (Der.element Der.octetStringTag (Bytes.ofNatBE c.curve.scalarLength k) ++
        (Der.element (Der.fieldTag 0) (Der.identifier c.identifier) ++
          Der.element (Der.fieldTag 1) (Der.bitString (c.curve.uncompressed x y))))) := by
  have hcontents := Nat.lt_of_le_of_lt (length_ecContents_le c k x y)
    (by decide : 238 < contentsLimit)
  rw [encodeEc, Der.sequence, Der.whole?_element (by decide) hcontents]
  simp only [List.flatten_cons, List.flatten_nil, List.append_nil]

/-! A key on a curve has version 1, and after the version a string of bytes. -/

/-- The version of a structure of a key on a curve is read back. -/
theorem readInteger?_version (rest : Bytes) :
    Der.readInteger? (Der.integer 1 ++ rest) = some (1, rest) :=
  Der.readInteger?_integer (by decide) rest

/-- Where the string of bytes stands, a structure of another algorithm has a sequence. -/
theorem decodeStructure?_encodeEc (c : NamedCurve) (k x y : Nat) :
    decodeStructure? (encodeEc c k x y) = none := by
  rw [decodeStructure?, whole?_encodeEc]
  simp only [Option.bind_eq_bind, Option.bind_some, readInteger?_version]
  rw [Der.read?_of_head? (by simp [Der.element, Der.octetStringTag, Der.sequenceTag])]
  rfl

/-- Where the string of bytes stands, the numbers of an RSA key go on with an integer. -/
theorem decodeRsaNumbers?_encodeEc (c : NamedCurve) (k x y : Nat) :
    decodeRsaNumbers? (encodeEc c k x y) = none := by
  rw [decodeRsaNumbers?, whole?_encodeEc]
  simp only [Option.bind_eq_bind, Option.bind_some, Der.integers?, readInteger?_version]
  rw [Der.readInteger?_of_head? (by simp [Der.element, Der.octetStringTag, Der.integerTag])]
  rfl

section Ec

variable {c : NamedCurve} {k x y : Nat} (hk : 0 < k ∧ k < c.curve.order)
  (hmul : c.curve.mul k c.curve.base = .affine x y) (hon : c.curve.IsOn x y)
include hk hmul hon

/-- A key on a named curve is read back from its own structure. -/
theorem decodeEc?_encodeEc : decodeEc? none (encodeEc c k x y) = some (ec c k x y) := by
  obtain ⟨hscalarLength, hfieldLength⟩ := c.length_le
  have hlimit : contentsLimit = 4294967296 := rfl
  have htag : Der.octetStringTag.toNat % 32 < 31 := by decide
  have hscalar : (Bytes.ofNatBE c.curve.scalarLength k).length < contentsLimit := by
    rw [Bytes.length_ofNatBE]
    omega
  have hoctets := Der.read?_element htag hscalar
  have hpoint : (c.curve.uncompressed x y).length + 1 < contentsLimit := by
    rw [Curve.length_uncompressed]
    omega
  have hbits := Der.length_bitString_le hpoint
  rw [Curve.length_uncompressed] at hbits
  have hfields := decodeEcFields?_elements (c := c) (by omega) hpoint
  rw [decodeEc?, whole?_encodeEc]
  simp only [Option.bind_eq_bind, Option.bind_some, readInteger?_version, hoctets, hfields]
  simpa using ofScalar?_ofNatBE hk hmul hon

/-- The written form of a key on a curve is read as that key, since it is none of the structures
that are tried before. -/
theorem decode?_encodeEc : decode? (encodeEc c k x y) = some (ec c k x y) := by
  rw [decode?, decodeStructure?_encodeEc, decodeRsaNumbers?_encodeEc,
    decodeEc?_encodeEc hk hmul hon]
  rfl

end Ec

/-! ### Consistency -/

/-- Nine numbers that are read are consistent. -/
theorem isConsistent_of_decodeRsaNumbers? {b : Bytes} {k : Rsa.PrivateNumbers}
    (h : decodeRsaNumbers? b = some (rsa k)) : k.IsConsistent := by
  simp only [decodeRsaNumbers?, Option.bind_eq_bind, Option.bind_eq_some_iff] at h
  obtain ⟨contents, -, numbers, -, h⟩ := h
  split at h
  next =>
    rw [Option.ite_none_right_eq_some] at h
    obtain ⟨hk, h⟩ := h
    cases h
    exact hk
  next => cases h

/-- A scalar on a curve is never read as an RSA key. -/
theorem ofScalar?_ne_rsa {curve : NamedCurve} {scalar : Bytes} {point : Option Bytes}
    {k : Rsa.PrivateNumbers} : ofScalar? curve scalar point ≠ some (rsa k) := by
  unfold ofScalar?
  dsimp only
  split
  next =>
    split
    next => nofun
    next => simp
  next => nofun

/-- The key of a curve is none of RSA. -/
theorem decodeEc?_ne_rsa {outside : Option NamedCurve} {b : Bytes} {k : Rsa.PrivateNumbers} :
    decodeEc? outside b ≠ some (rsa k) := by
  intro h
  simp only [decodeEc?, Option.bind_eq_bind, Option.bind_eq_some_iff,
    Option.ite_none_right_eq_some] at h
  obtain ⟨_, -, _, -, scalar, -, fields, -, curve, -, -, h⟩ := h
  exact ofScalar?_ne_rsa h

/-- The numbers of an RSA key that is read are consistent. -/
theorem isConsistent_of_decode? {b : Bytes} {k : Rsa.PrivateNumbers}
    (h : decode? b = some (rsa k)) : k.IsConsistent := by
  -- Of the four readers, the first two find RSA keys, and they find the numbers in the same way.
  simp only [decode?, Option.orElse_eq_some] at h
  rcases h with h | ⟨-, h | ⟨-, h | ⟨-, h⟩⟩⟩
  · simp only [decodeStructure?, Option.bind_eq_bind, Option.bind_eq_some_iff,
      Option.ite_none_right_eq_some] at h
    obtain ⟨-, -, -, -, -, -, octets, -, algorithm, -, -, h⟩ := h
    cases algorithm with
    | rsa => exact isConsistent_of_decodeRsaNumbers? h
    | ec curve => exact absurd h decodeEc?_ne_rsa
    | _ => simp [ofOctets?] at h
  · exact isConsistent_of_decodeRsaNumbers? h
  · exact absurd h decodeEc?_ne_rsa
  · simp only [decodeDsaNumbers?, Option.bind_eq_bind, Option.bind_eq_some_iff] at h
    obtain ⟨contents, -, numbers, -, h⟩ := h
    split at h <;> cases h

end PrivateKeyInfo

namespace PublicKeyInfo

/-! ## Public keys -/

section Structure

variable (algorithm : List Bytes) (bits : Bytes)

/-- A structure is longer than the bits that it holds. -/
theorem length_le_length_sequence :
    bits.length ≤ (Der.sequence [Der.sequence algorithm, Der.bitString bits]).length := by
  have hbits := Der.length_le_length_element Der.bitStringTag (0 :: bits)
  have hcontents := Der.length_le_length_element Der.sequenceTag
    [Der.sequence algorithm, Der.bitString bits].flatten
  simp only [List.flatten_cons, List.flatten_nil, List.append_nil, List.length_append,
    List.length_cons, Der.bitString] at hbits hcontents
  rw [Der.sequence, Der.bitString]
  simp only [List.flatten_cons, List.flatten_nil, List.append_nil]
  omega

variable (hlen : algorithm.flatten.length + bits.length + 13 < contentsLimit)
include hlen

/-- A public key structure has at most 13 bytes in it beside the algorithm and the bits. -/
theorem length_contents_le :
    [Der.sequence algorithm, Der.bitString bits].flatten.length ≤
      algorithm.flatten.length + bits.length + 13 := by
  have halgorithm := Der.length_element_le Der.sequenceTag algorithm.flatten (by omega)
  have hbits := Der.length_bitString_le (b := bits) (by omega)
  simp only [List.flatten_cons, List.flatten_nil, List.append_nil, List.length_append, Der.sequence]
  omega

/-- A public key structure is at most 19 bytes longer than the algorithm and the bits. -/
theorem length_sequence_le :
    (Der.sequence [Der.sequence algorithm, Der.bitString bits]).length ≤
      algorithm.flatten.length + bits.length + 19 :=
  Der.length_sequence_le (length_contents_le _ _ hlen) hlen

/-- A structure of an algorithm and a bit string is read as the key that the bits hold. -/
theorem decodeStructure?_sequence {a : KeyAlgorithm}
    (ha : KeyAlgorithm.decode? algorithm.flatten = some a) :
    decodeStructure? (Der.sequence [Der.sequence algorithm, Der.bitString bits]) =
      ofBits? a bits := by
  have halgorithm : algorithm.flatten.length < contentsLimit := by omega
  have hbits : bits.length + 1 < contentsLimit := by omega
  have hcontents := Nat.lt_of_le_of_lt (length_contents_le _ _ hlen) hlen
  rw [Der.sequence] at hcontents
  rw [decodeStructure?, Der.sequence, Der.sequence, Der.whole?_element (by decide) hcontents]
  simp only [List.flatten_cons, List.flatten_nil, List.append_nil, Option.bind_eq_bind,
    Option.bind_some]
  rw [Der.read?_element (by decide) halgorithm, Option.bind_some,
    Der.wholeBitString?_bitString hbits, Option.bind_some, ha]
  rfl

end Structure

/-! ### RSA -/

/-- The exponents that are read: odd, at least 3 and below the modulus. -/
def IsExponent (n e : Nat) : Prop :=
  e % 2 = 1 ∧ 3 ≤ e ∧ e < n

section Sizes

/-! The exponent of a keypair need not be one that is read, so the sizes of written forms are stated
for all the numbers that accepted keypairs have. -/

variable {n e : Nat} (hn : Bytes.byteLength n ≤ Rsa.maxProductLength)
  (he : Bytes.byteLength e ≤ Rsa.maxProductLength)
include hn he

/-- Modulus and exponent are bounded. -/
theorem byteLength_le_of_mem {m : Nat} (hm : m ∈ [n, e]) :
    Bytes.byteLength m ≤ Rsa.maxProductLength := by
  simp only [List.mem_cons, List.not_mem_nil, or_false] at hm
  rcases hm with rfl | rfl
  · exact hn
  · exact he

/-- The two numbers of a key have a bounded length. -/
theorem length_rsaContents_le :
    ([n, e].map Der.integer).flatten.length ≤ 2 * (Rsa.maxProductLength + 7) :=
  @Der.length_flatten_integer_le [n, e] Rsa.maxProductLength (by decide) fun _ =>
    byteLength_le_of_mem hn he

/-- The sequence of the two numbers has a bounded length. -/
theorem length_encodeRsaNumbers_le :
    (encodeRsaNumbers n e).length ≤ 2 * (Rsa.maxProductLength + 7) + 6 :=
  Der.length_sequence_le (length_rsaContents_le hn he) (by decide)

/-- The two numbers of a key are read back if the exponent is one that is read. -/
theorem decodeRsaNumbers?_encodeRsaNumbers (hexponent : IsExponent n e) :
    decodeRsaNumbers? (encodeRsaNumbers n e) = some (rsa n e) := by
  have hcontents := Nat.lt_of_le_of_lt (length_rsaContents_le hn he)
    (by decide : 2 * (Rsa.maxProductLength + 7) < contentsLimit)
  have hintegers : Der.integers? 2 ([n, e].map Der.integer).flatten = some [n, e] :=
    @Der.integers?_flatten [n, e] fun m hm =>
      Nat.lt_of_le_of_lt (Nat.add_le_add_right (byteLength_le_of_mem hn he hm) 1) (by decide)
  have hwhole : Der.whole? Der.sequenceTag (encodeRsaNumbers n e) =
      some ([n, e].map Der.integer).flatten := Der.whole?_element (by decide) hcontents
  rw [decodeRsaNumbers?, hwhole]
  simp only [Option.bind_eq_bind, Option.bind_some]
  rw [hintegers]
  exact if_pos hexponent

/-- The structure around the two numbers is short enough to be read. -/
theorem length_rsaStructure_lt :
    [Der.identifier KeyAlgorithm.rsaIdentifier, Der.null].flatten.length +
      (encodeRsaNumbers n e).length + 19 < contentsLimit := by
  have hlen := length_encodeRsaNumbers_le hn he
  have hmax : 2 * (Rsa.maxProductLength + 7) + 38 < contentsLimit := by decide
  rw [KeyAlgorithm.length_rsaParts]
  omega

/-- The structure of a public RSA key is short enough to be read. -/
theorem length_encodeRsa_lt : (encodeRsa n e).length < contentsLimit := by
  have hlen := length_rsaStructure_lt hn he
  have hle := length_sequence_le [Der.identifier KeyAlgorithm.rsaIdentifier, Der.null]
    (encodeRsaNumbers n e) (by omega)
  exact Nat.lt_of_le_of_lt hle hlen

end Sizes

/-- The modulus of a key takes its part of the written form. -/
theorem bitLength_div_lt_length_encodeRsa (n e : Nat) :
    Bytes.bitLength n / 8 < (encodeRsa n e).length := by
  -- The modulus is the first of the two elements in the sequence of the numbers.
  have hnumbers : (Der.integer n).length ≤ (encodeRsaNumbers n e).length := by
    have hcontents := Der.length_le_length_element Der.sequenceTag
      [Der.integer n, Der.integer e].flatten
    rw [List.flatten_cons, List.length_append] at hcontents
    exact Nat.le_trans (Nat.le_add_right _ _) hcontents
  calc Bytes.bitLength n / 8 < (Der.integerContents n).length := by
        rw [Der.integerContents, Bytes.length_ofNatBE]
        omega
    _ ≤ (Der.integer n).length := Der.length_le_length_element _ _
    _ ≤ (encodeRsaNumbers n e).length := hnumbers
    _ ≤ (encodeRsa n e).length := length_le_length_sequence _ _

/-- The written form of an RSA key of an accepted size is read as that key, if its exponent is
one. -/
theorem decode?_encodeRsa {n e : Nat} (hn : Rsa.IsSized n) (he : IsExponent n e) :
    decode? (encodeRsa n e) = some (rsa n e) := by
  have hmodulus := hn.byteLength_le le_rfl
  have hexponent := hn.byteLength_le he.2.2.le
  have hlen := length_rsaStructure_lt hmodulus hexponent
  have hstructure : decodeStructure? (encodeRsa n e) = some (rsa n e) :=
    (decodeStructure?_sequence _ _ (by omega) KeyAlgorithm.decode?_rsaParts).trans
      (decodeRsaNumbers?_encodeRsaNumbers hmodulus hexponent he)
  rw [decode?, hstructure]
  rfl

/-- An exponent that is read is odd, at least 3 and below the modulus. -/
theorem isExponent_of_decodeRsaNumbers? {b : Bytes} {n e : Nat}
    (h : decodeRsaNumbers? b = some (rsa n e)) : IsExponent n e := by
  simp only [decodeRsaNumbers?, Option.bind_eq_bind, Option.bind_eq_some_iff] at h
  obtain ⟨contents, -, numbers, -, h⟩ := h
  split at h
  next =>
    rw [Option.ite_none_right_eq_some] at h
    obtain ⟨he, h⟩ := h
    cases h
    exact he
  next => cases h

/-- An RSA key that is read has an exponent that is one. -/
theorem isExponent_of_decode? {b : Bytes} {n e : Nat} (h : decode? b = some (rsa n e)) :
    IsExponent n e := by
  rw [decode?, Option.orElse_eq_some] at h
  rcases h with h | ⟨-, h⟩
  · simp only [decodeStructure?, Option.bind_eq_bind, Option.bind_eq_some_iff] at h
    obtain ⟨-, -, -, -, bits, -, algorithm, -, h⟩ := h
    cases algorithm with
    | rsa => exact isExponent_of_decodeRsaNumbers? h
    | ec curve => simp [ofBits?] at h
    | dsa => simp [ofBits?] at h
    | _ => simp [ofBits?, Option.ite_none_right_eq_some] at h
  · exact isExponent_of_decodeRsaNumbers? h

/-- The written form of an RSA key determines its numbers, whatever the exponent. -/
theorem encodeRsa_injective {m n d e : Nat} (hm : Rsa.IsSized m) (hn : Rsa.IsSized n)
    (h : encodeRsa m d = encodeRsa n e) : m = n ∧ d = e := by
  have hlimit : ∀ {n}, Rsa.IsSized n → Bytes.byteLength n + 1 < contentsLimit := fun hn =>
    Nat.lt_of_le_of_lt (Nat.add_le_add_right (hn.byteLength_le le_rfl) 1) (by decide)
  -- The structure is peeled off from the outside: the sequence, the bit string and the numbers.
  have houter := Der.element_injective h
  simp only [List.flatten_cons, List.flatten_nil, List.append_nil] at houter
  have hbits := Der.element_injective (List.append_cancel_left houter)
  have hnumbers := Der.element_injective (List.cons.inj hbits).2
  simp only [List.flatten_cons, List.flatten_nil, List.append_nil] at hnumbers
  -- The modulus is read first, and leaves the exponent.
  have hread := Der.readInteger?_integer (hlimit hm) (Der.integer d)
  rw [hnumbers, Der.readInteger?_integer (hlimit hn)] at hread
  obtain ⟨hmn, hde⟩ := Prod.mk.inj (Option.some.inj hread)
  exact ⟨hmn.symm, (Der.integer_injective hde).symm⟩

/-! ### Curves -/

/-- The structure around a point of a named curve is short enough to be read. -/
theorem length_ecStructure_lt (c : NamedCurve) (x y : Nat) :
    [Der.identifier KeyAlgorithm.ecIdentifier, Der.identifier c.identifier].flatten.length +
      (c.curve.uncompressed x y).length + 19 < contentsLimit := by
  obtain ⟨-, hfield⟩ := c.length_le
  have hparts := KeyAlgorithm.length_ecParts_le c
  have hmax : 20 + 133 + 19 < contentsLimit := by decide
  rw [Curve.length_uncompressed]
  omega

/-- The structure of a public key on a named curve is short enough to be read. -/
theorem length_encodeEc_lt (c : NamedCurve) (x y : Nat) :
    (encodeEc c x y).length < contentsLimit := by
  have hlen := length_ecStructure_lt c x y
  have hle := length_sequence_le
    [Der.identifier KeyAlgorithm.ecIdentifier, Der.identifier c.identifier]
    (c.curve.uncompressed x y) (by omega)
  exact Nat.lt_of_le_of_lt hle hlen

/-- The coordinates of a point take their part of the written form. -/
theorem fieldLength_lt_length_encodeEc (c : NamedCurve) (x y : Nat) :
    2 * c.curve.fieldLength < (encodeEc c x y).length := by
  have hstructure := length_le_length_sequence
    [Der.identifier KeyAlgorithm.ecIdentifier, Der.identifier c.identifier]
    (c.curve.uncompressed x y)
  rw [Curve.length_uncompressed] at hstructure
  exact hstructure

/-- The written form of a point of a named curve is read as that point. -/
theorem decode?_encodeEc {c : NamedCurve} {x y : Nat} (hon : c.curve.IsOn x y) :
    decode? (encodeEc c x y) = some (ec c x y) := by
  have hlen := length_ecStructure_lt c x y
  have hstructure : decodeStructure? (encodeEc c x y) = some (ec c x y) := by
    rw [encodeEc, KeyAlgorithm.ecElement,
      decodeStructure?_sequence _ _ (by omega) (KeyAlgorithm.decode?_ecParts c), ofBits?,
      Curve.decodePoint?_uncompressed hon]
    rfl
  rw [decode?, hstructure]
  rfl

end PublicKeyInfo

end PeerIdentity
