import Mathlib.Data.Nat.Digits.Defs
import PeerIdentity.Proofs.Bytes
import PeerIdentity.Text.Base32
import PeerIdentity.Text.Uppercase

/-!
# Base 32 is lossless

A byte string is read back from its text, once the text is in upper case. The number of bytes and
the number of zero bits that fill the last digit are both determined by the number of digits, since
`⌈8 n / 5⌉` digits hold at most four bits more than `n` bytes.

* `upperDigit`, `upperAscii_encode`: the text in upper case;
* `decode_upperAscii_encode`: reading undoes writing;
* `decode_eq_ok_iff`: the texts in upper case that are read, which may be padded;
* `encode_bytesOf`: writing what was read clears the bits that the last digit does not use.
-/

namespace PeerIdentity.Base32

/-! ## Digits -/

/-- The upper-case digit of a value below 32. -/
def upperDigit (v : Nat) : Char :=
  if v < 26 then Char.ofNat (65 + v) else Char.ofNat (24 + v)

/-- The upper case of a digit is one character, although upper case may be longer in general. -/
theorem upperChar_digit {v : Nat} (h : v < 32) : upperChar (digit v) = [upperDigit v] := by
  have hall : ∀ v < 32, upperChar (digit v) = [upperDigit v] := by decide
  exact hall v h

/-- The upper-case digit of a value is read as that value. -/
theorem value?_upperDigit {v : Nat} (h : v < 32) : value? (upperDigit v) = some v := by
  have hall : ∀ v < 32, value? (upperDigit v) = some v := by decide
  exact hall v h

/-- Upper case turns a text of digits into the upper-case digits of the same values. -/
theorem upperAscii_map_digit {vs : List Nat} (h : ∀ v ∈ vs, v < 32) :
    upperAscii (vs.map digit) = vs.map upperDigit := by
  induction vs with
  | nil => rfl
  | cons v vs ih =>
    have ih := ih fun v hv => h v (by simp [hv])
    rw [upperAscii] at ih ⊢
    rw [List.map_cons, List.flatMap_cons, upperChar_digit (h v (by simp)), ih]
    rfl

/-- A digit is an ASCII character and no padding. -/
theorem upperDigit_ne_padding {v : Nat} (h : v < 32) :
    (upperDigit v).toNat < 128 ∧ upperDigit v ≠ '=' := by
  have hall : ∀ v < 32, (upperDigit v).toNat < 128 ∧ upperDigit v ≠ '=' := by decide
  exact hall v h

@[simp]
theorem length_digitValues (count n : Nat) : (digitValues count n).length = count := by
  induction count generalizing n with
  | zero => rfl
  | succ count ih => rw [digitValues, List.length_cons, ih]

/-- Every value is that of a digit. -/
theorem digitValues_lt (count n : Nat) : ∀ v ∈ digitValues count n, v < 32 := by
  induction count generalizing n with
  | zero => simp [digitValues]
  | succ count ih =>
    intro v hv
    rcases List.mem_cons.mp hv with rfl | hv
    · exact Nat.mod_lt n (by decide)
    · exact ih (n / 32) v hv

/-- A number with at most `count` digits is recovered from the values of its digits. -/
theorem ofDigits_digitValues {count n : Nat} (h : n < 32 ^ count) :
    Nat.ofDigits 32 (digitValues count n) = n := by
  induction count generalizing n with
  | zero =>
    have hn : n = 0 := by simpa using h
    simp [digitValues, hn]
  | succ count ih =>
    rw [pow_succ] at h
    rw [digitValues, Nat.ofDigits_cons, ih (by omega)]
    exact Nat.mod_add_div n 32

/-! ## Numbers -/

/-- One more digit multiplies the number by 32 and adds the value of the digit. -/
theorem number?_append_singleton (s : List Char) (c : Char) :
    number? (s ++ [c]) = (number? s).bind fun n => (value? c).map (32 * n + ·) := by
  rw [number?, List.foldlM_append]
  refine bind_congr fun n => ?_
  rw [List.foldlM_cons]
  cases value? c <;> rfl

/-- Digits write the number that their values write. -/
theorem number?_map_upperDigit {vs : List Nat} (h : ∀ v ∈ vs, v < 32) :
    number? (vs.map upperDigit) = some (Nat.ofDigits 32 vs.reverse) := by
  induction vs using List.reverseRecOn with
  | nil => rfl
  | append_singleton vs v ih =>
    have hv := value?_upperDigit (h v (by simp))
    have ih := ih fun v hv => h v (by simp [hv])
    have hvalue : Nat.ofDigits 32 (vs ++ [v]).reverse = 32 * Nat.ofDigits 32 vs.reverse + v := by
      rw [List.reverse_append, List.reverse_singleton, List.singleton_append, Nat.ofDigits_cons]
      exact Nat.add_comm v _
    rw [List.map_append, List.map_singleton, number?_append_singleton, ih, hvalue, hv]
    rfl

/-! ## Texts -/

/-- The number that the text of a byte string writes, most significant digit first. -/
def paddedNumber (b : Bytes) : Nat :=
  Bytes.toNatBE b <<< (5 * digitCount b.length - 8 * b.length)

/-- The number that the text of a byte string writes has as many digits as the text. -/
theorem paddedNumber_lt (b : Bytes) : paddedNumber b < 32 ^ digitCount b.length := by
  have hb := Bytes.toNatBE_lt b
  have hlen : 8 * b.length ≤ 5 * digitCount b.length := by
    unfold digitCount
    omega
  have hpow : 32 ^ digitCount b.length =
      256 ^ b.length * 2 ^ (5 * digitCount b.length - 8 * b.length) := by
    calc 32 ^ digitCount b.length = 2 ^ (5 * digitCount b.length) := by rw [Nat.pow_mul]
      _ = 2 ^ (8 * b.length + (5 * digitCount b.length - 8 * b.length)) := by
        rw [Nat.add_sub_cancel' hlen]
      _ = 256 ^ b.length * 2 ^ (5 * digitCount b.length - 8 * b.length) := by
        rw [Nat.pow_add, Nat.pow_mul]
  rw [paddedNumber, Nat.shiftLeft_eq, hpow]
  exact Nat.mul_lt_mul_of_pos_right hb (Nat.two_pow_pos _)

/-- In upper case, the text of a byte string has the digits of its padded number. -/
theorem upperAscii_encode (b : Bytes) :
    upperAscii (encode b) =
      (digitValues (digitCount b.length) (paddedNumber b)).reverse.map upperDigit := by
  rw [encode, upperAscii_map_digit]
  · rfl
  · intro v hv
    exact digitValues_lt _ _ v (List.mem_reverse.mp hv)

/-- The bytes that digits fill, most significant digit first. Bits beyond the last whole byte are
dropped. -/
def bytesOf (vs : List Nat) : Bytes :=
  Bytes.ofNatBE (5 * vs.length / 8)
    (Nat.ofDigits 32 vs.reverse >>> (5 * vs.length - 8 * (5 * vs.length / 8)))

/-- The padding after digits, once the text is filled up to a multiple of eight characters. -/
def fillsUp (digits padding : Nat) : Prop :=
  (digits + padding + 7) / 8 * 8 - digits ∈ paddingLengths

/-- The characters before the padding. -/
theorem dropPadding_append {vs : List Nat} (h : ∀ v ∈ vs, v < 32) (padding : Nat) :
    ((vs.map upperDigit ++ List.replicate padding '=').reverse.dropWhile (· = '=')).reverse =
      vs.map upperDigit := by
  have hpadding : ∀ c ∈ List.replicate padding '=', decide (c = '=') = true := by
    intro c hc
    rw [List.eq_of_mem_replicate hc]
    rfl
  rw [List.reverse_append, List.reverse_replicate, List.dropWhile_append_of_pos hpadding,
    List.reverse_eq_iff, ← List.map_reverse]
  cases hvs : vs.reverse with
  | nil => rfl
  | cons v ws =>
    have hv : v ∈ vs := List.mem_reverse.mp (hvs ▸ List.mem_cons_self)
    simp [(upperDigit_ne_padding (h v hv)).2]

/-- Reading a text takes as many bytes as its digits fill. -/
theorem decode_append_padding {vs : List Nat} (h : ∀ v ∈ vs, v < 32) {padding : Nat}
    (hlen : fillsUp vs.length padding) :
    decode (vs.map upperDigit ++ List.replicate padding '=') = .ok (bytesOf vs) := by
  -- The text is ASCII, which is the first thing that is checked.
  have hascii :
      (vs.map upperDigit ++ List.replicate padding '=').all (·.toNat < 128) = true := by
    rw [List.all_append, Bool.and_eq_true, List.all_map, List.all_eq_true, List.all_eq_true]
    constructor
    · intro v hv
      simpa using (upperDigit_ne_padding (h v hv)).1
    · intro c hc
      rw [List.eq_of_mem_replicate hc]
      rfl
  rw [fillsUp] at hlen
  rw [decode]
  simp only [dropPadding_append h, hascii, number?_map_upperDigit h, List.length_append,
    List.length_map, List.length_replicate, hlen]
  simp [bytesOf]

/-- Reading a text without padding takes as many bytes as its digits fill. -/
theorem decode_map_upperDigit {vs : List Nat} (h : ∀ v ∈ vs, v < 32)
    (hlen : fillsUp vs.length 0) : decode (vs.map upperDigit) = .ok (bytesOf vs) := by
  simpa using decode_append_padding h hlen

/-- Reading undoes writing, in upper case. -/
theorem decode_upperAscii_encode (b : Bytes) : decode (upperAscii (encode b)) = .ok b := by
  set count := digitCount b.length with hcount
  -- The digits hold all the bits of the bytes, and less than one digit more.
  have hcount' : 8 * b.length ≤ 5 * count ∧ 5 * count ≤ 8 * b.length + 4 := by
    rw [hcount, digitCount]
    omega
  have hpadding : fillsUp count 0 := by
    rw [hcount, fillsUp, digitCount, paddingLengths]
    simp only [List.mem_cons, List.not_mem_nil, or_false]
    omega
  have hbytes : 5 * count / 8 = b.length := by omega
  rw [upperAscii_encode, decode_map_upperDigit, bytesOf]
  · rw [List.length_reverse, length_digitValues, List.reverse_reverse,
      ofDigits_digitValues (paddedNumber_lt b), ← hcount, hbytes, paddedNumber, ← hcount,
      Nat.shiftLeft_shiftRight, Bytes.ofNatBE_toNatBE]
  · intro v hv
    exact digitValues_lt _ _ v (List.mem_reverse.mp hv)
  · rwa [List.length_reverse, length_digitValues, ← hcount]

/-- Two byte strings with one text are equal. -/
theorem encode_injective {a b : Bytes} (h : encode a = encode b) : a = b := by
  have hread := decode_upperAscii_encode a
  rw [h, decode_upperAscii_encode b] at hread
  exact (Except.ok.inj hread).symm

/-! ## What is read -/

/-- Every value has one upper-case digit. -/
theorem eq_upperDigit_of_value? {c : Char} {v : Nat} (h : value? c = some v) :
    v < 32 ∧ c = upperDigit v := by
  -- A character is given by its code, so that only numbers are left to compare.
  have hchar : c = Char.ofNat c.toNat := (Char.ofNat_toNat c).symm
  rw [value?] at h
  split at h
  next hc =>
    obtain ⟨hlow, hhigh⟩ : 65 ≤ c.toNat ∧ c.toNat ≤ 90 := hc
    obtain rfl : c.toNat - 65 = v := Option.some.inj h
    refine ⟨by omega, ?_⟩
    rwa [upperDigit, if_pos (by omega), Nat.add_sub_cancel' hlow]
  next =>
    split at h
    next hc =>
      obtain ⟨hlow, hhigh⟩ : 50 ≤ c.toNat ∧ c.toNat ≤ 55 := hc
      obtain rfl : c.toNat - 24 = v := Option.some.inj h
      refine ⟨by omega, ?_⟩
      rwa [upperDigit, if_neg (by omega), Nat.add_sub_cancel' (by omega)]
    next => cases h

/-- Only digits write numbers. -/
theorem eq_map_upperDigit_of_number? {s : List Char} {n : Nat} (h : number? s = some n) :
    ∃ vs : List Nat, (∀ v ∈ vs, v < 32) ∧ s = vs.map upperDigit := by
  induction s using List.reverseRecOn generalizing n with
  | nil => exact ⟨[], nofun, rfl⟩
  | append_singleton s c ih =>
    rw [number?_append_singleton] at h
    obtain ⟨m, hm, h⟩ := Option.bind_eq_some_iff.mp h
    obtain ⟨v, hv, -⟩ := Option.map_eq_some_iff.mp h
    obtain ⟨vs, hvs, rfl⟩ := ih hm
    obtain ⟨hlt, rfl⟩ := eq_upperDigit_of_value? hv
    refine ⟨vs ++ [v], ?_, by simp⟩
    exact List.forall_mem_append.mpr ⟨hvs, List.forall_mem_singleton.mpr hlt⟩

/-- A text ends in the padding that reading drops from it. -/
theorem eq_append_padding (s : List Char) :
    ∃ padding, s = (s.reverse.dropWhile (· = '=')).reverse ++ List.replicate padding '=' := by
  refine ⟨(s.reverse.takeWhile (· = '=')).length, ?_⟩
  -- What is taken from the end consists of padding characters.
  have htake : s.reverse.takeWhile (· = '=') =
      List.replicate (s.reverse.takeWhile (· = '=')).length '=' := by
    rw [List.eq_replicate_iff]
    refine ⟨rfl, fun c hc => ?_⟩
    simpa using List.all_eq_true.mp (List.all_takeWhile (l := s.reverse)) c hc
  rw [← List.reverse_inj, List.reverse_append, List.reverse_replicate, List.reverse_reverse,
    ← htake, List.takeWhile_append_dropWhile]

/-- A text that is read is digits and padding that fills them up. -/
theorem eq_digits_append_padding_of_decode {s : List Char} {b : Bytes} (h : decode s = .ok b) :
    ∃ (vs : List Nat) (padding : Nat), (∀ v ∈ vs, v < 32) ∧
      s = vs.map upperDigit ++ List.replicate padding '=' ∧ fillsUp vs.length padding := by
  obtain ⟨padding, hs⟩ := eq_append_padding s
  -- The characters, the digits and the padding are checked in turn, and all three checks passed.
  rw [decode] at h
  split at h
  next => cases h
  next =>
    split at h
    next => cases h
    next n hn =>
      obtain ⟨vs, hvs, hdigits⟩ := eq_map_upperDigit_of_number? hn
      rw [hdigits] at hs h
      split at h
      next hlen =>
        rw [hs, List.length_append, List.length_map, List.length_replicate] at hlen
        exact ⟨vs, padding, hvs, hs, hlen⟩
      next => cases h

/-- The texts that are read are digits and padding that fills them up. -/
theorem decode_eq_ok_iff {s : List Char} {b : Bytes} :
    decode s = .ok b ↔ ∃ (vs : List Nat) (padding : Nat), (∀ v ∈ vs, v < 32) ∧
      s = vs.map upperDigit ++ List.replicate padding '=' ∧ fillsUp vs.length padding ∧
      b = bytesOf vs := by
  constructor
  · intro h
    obtain ⟨vs, padding, hvs, rfl, hlen⟩ := eq_digits_append_padding_of_decode h
    rw [decode_append_padding hvs hlen] at h
    exact ⟨vs, padding, hvs, rfl, hlen, (Except.ok.inj h).symm⟩
  · rintro ⟨vs, padding, hvs, rfl, hlen, rfl⟩
    exact decode_append_padding hvs hlen

/-! ## Unused bits -/

/-- The digits, with zeros for the bits of the last one that belong to no whole byte. -/
def clearUnused (vs : List Nat) : List Nat :=
  vs.dropLast ++ vs.getLast?.toList.map fun v => v - v % 2 ^ (5 * vs.length % 8)

/-- Only the last digit loses bits: as many as are left beyond the last whole byte. -/
@[simp]
theorem clearUnused_append_singleton (vs : List Nat) (v : Nat) :
    clearUnused (vs ++ [v]) = vs ++ [v - v % 2 ^ (5 * (vs.length + 1) % 8)] := by
  simp [clearUnused]

/-- No digit is dropped where unused bits are cleared. -/
@[simp]
theorem length_clearUnused (vs : List Nat) : (clearUnused vs).length = vs.length := by
  cases vs using List.reverseRecOn with
  | nil => rfl
  | append_singleton vs v => simp

/-- Digits without their unused bits are digits. -/
theorem clearUnused_lt {vs : List Nat} (h : ∀ v ∈ vs, v < 32) : ∀ v ∈ clearUnused vs, v < 32 := by
  cases vs using List.reverseRecOn with
  | nil => exact h
  | append_singleton vs v =>
    obtain ⟨hvs, hv⟩ := List.forall_mem_append.mp h
    rw [List.forall_mem_singleton] at hv
    rw [clearUnused_append_singleton, List.forall_mem_append, List.forall_mem_singleton]
    exact ⟨hvs, by omega⟩

/-- Clearing the unused bits is shifting them out and shifting zeros in. -/
theorem ofDigits_clearUnused {vs : List Nat} (h : 5 * vs.length % 8 < 5) :
    Nat.ofDigits 32 (clearUnused vs).reverse =
      Nat.ofDigits 32 vs.reverse >>> (5 * vs.length % 8) <<< (5 * vs.length % 8) := by
  cases vs using List.reverseRecOn with
  | nil => rfl
  | append_singleton vs v =>
    rw [List.length_append, List.length_singleton] at h
    rw [clearUnused_append_singleton, List.length_append, List.length_singleton]
    generalize 5 * (vs.length + 1) % 8 = u at h
    -- The digits before the last one count multiples of `2 ^ u`.
    have hdvd : 2 ^ u ∣ 32 := Nat.pow_dvd_pow 2 (by omega : u ≤ 5)
    obtain ⟨k, hk⟩ := hdvd
    rw [List.reverse_append, List.reverse_append, List.reverse_singleton, List.reverse_singleton,
      List.singleton_append, List.singleton_append, Nat.ofDigits_cons, Nat.ofDigits_cons,
      Nat.shiftRight_eq_div_pow, Nat.shiftLeft_eq]
    generalize Nat.ofDigits 32 vs.reverse = n
    have hn : 32 * n = 2 ^ u * (k * n) := by rw [hk, Nat.mul_assoc]
    rw [hn, Nat.add_mul_div_left _ _ (Nat.two_pow_pos u), Nat.add_mul,
      Nat.mul_comm (v / 2 ^ u), Nat.mul_comm (k * n)]
    have hv := Nat.mod_add_div v (2 ^ u)
    omega

/-- The values of digits are recovered from the number that they write. -/
theorem digitValues_ofDigits {vs : List Nat} (h : ∀ v ∈ vs, v < 32) :
    digitValues vs.length (Nat.ofDigits 32 vs) = vs := by
  induction vs with
  | nil => rfl
  | cons v vs ih =>
    have hv : v < 32 := h v (by simp)
    have ih := ih fun w hw => h w (by simp [hw])
    rw [List.length_cons, digitValues, Nat.ofDigits_cons]
    have hmod : (v + 32 * Nat.ofDigits 32 vs) % 32 = v := by omega
    have hdiv : (v + 32 * Nat.ofDigits 32 vs) / 32 = Nat.ofDigits 32 vs := by omega
    rw [hmod, hdiv, ih]

/-- Eight digits fill five bytes, and fewer fill those that they reach the end of. -/
theorem length_bytesOf (vs : List Nat) : (bytesOf vs).length = 5 * vs.length / 8 := by
  rw [bytesOf, Bytes.length_ofNatBE]

/-- The number that is read is that of the digits without the unused bits. -/
theorem toNatBE_bytesOf {vs : List Nat} (h : ∀ v ∈ vs, v < 32) :
    Bytes.toNatBE (bytesOf vs) = Nat.ofDigits 32 vs.reverse >>> (5 * vs.length % 8) := by
  have hbits : 5 * vs.length - 8 * (5 * vs.length / 8) = 5 * vs.length % 8 := by omega
  have hlt : Nat.ofDigits 32 vs.reverse < 2 ^ (5 * vs.length) := by
    have hlength : vs.reverse.length = vs.length := List.length_reverse
    rw [Nat.pow_mul, ← hlength]
    exact Nat.ofDigits_lt_base_pow_length (by decide) fun v hv => h v (List.mem_reverse.mp hv)
  rw [bytesOf, hbits, Bytes.toNatBE_ofNatBE]
  rw [Nat.shiftRight_eq_div_pow]
  refine Nat.div_lt_of_lt_mul ?_
  calc Nat.ofDigits 32 vs.reverse < 2 ^ (5 * vs.length) := hlt
    _ = 2 ^ (5 * vs.length % 8 + 8 * (5 * vs.length / 8)) := by rw [Nat.mod_add_div]
    _ = 2 ^ (5 * vs.length % 8) * 256 ^ (5 * vs.length / 8) := by rw [Nat.pow_add, Nat.pow_mul]

/-- Writing what was read clears the bits that the last digit does not use. -/
theorem encode_bytesOf {vs : List Nat} (h : ∀ v ∈ vs, v < 32) {padding : Nat}
    (hlen : fillsUp vs.length padding) : encode (bytesOf vs) = (clearUnused vs).map digit := by
  -- With whole groups, the bits beyond the last byte are some of the last digit.
  have hunused : 5 * vs.length % 8 < 5 := by
    rw [fillsUp, paddingLengths] at hlen
    simp only [List.mem_cons, List.not_mem_nil, or_false] at hlen
    omega
  have hcount : digitCount (5 * vs.length / 8) = vs.length := by
    rw [digitCount]
    omega
  have hbits : 5 * vs.length - 8 * (5 * vs.length / 8) = 5 * vs.length % 8 := by omega
  have hreverse : (clearUnused vs).reverse.length = vs.length := by
    rw [List.length_reverse, length_clearUnused]
  rw [encode, length_bytesOf, hcount, toNatBE_bytesOf h]
  simp only [hbits]
  rw [← ofDigits_clearUnused hunused, ← hreverse, digitValues_ofDigits, List.reverse_reverse]
  intro v hv
  exact clearUnused_lt h v (List.mem_reverse.mp hv)

end PeerIdentity.Base32
