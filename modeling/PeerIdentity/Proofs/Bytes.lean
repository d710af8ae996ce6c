import Mathlib.Data.List.Induction
import Mathlib.Tactic.Ring
import PeerIdentity.Bytes

/-!
# Numbers as byte strings

Reading a number in base 256 undoes writing it, in both byte orders and for a fixed and for the
least number of bytes:

* `toNatBE_ofNatBE`, `ofNatBE_toNatBE`: with a fixed number of bytes;
* `toNatBE_ofNat`, `ofNat_toNatBE`: with the least number of bytes, which has no leading zero;
* `bitLength_le_iff`, `byteLength_le_iff`: the numbers of digits, as bounds by powers.

The hexadecimal digits of a byte string are read back too (`ofHex?_hex`).
-/

namespace PeerIdentity.Bytes

/-! ## Least significant byte first -/

/-- The number of a byte string has at most as many digits to the base 256 as there are bytes. -/
theorem toNatLE_lt (b : Bytes) : toNatLE b < 256 ^ b.length := by
  induction b with
  | nil => simp [toNatLE]
  | cons x b ih =>
    have hx := x.toNat_lt
    rw [toNatLE, List.length_cons, pow_succ]
    omega

/-- The number of a byte string has at most eight bits for each byte. -/
theorem toNatLE_lt_two_pow (b : Bytes) : toNatLE b < 2 ^ (8 * b.length) := by
  rw [Nat.pow_mul]
  exact toNatLE_lt b

/-- Bytes behind others count from a higher power of 256 on. -/
theorem toNatLE_append (a b : Bytes) :
    toNatLE (a ++ b) = toNatLE a + 256 ^ a.length * toNatLE b := by
  induction a with
  | nil => simp [toNatLE]
  | cons x a ih =>
    rw [List.cons_append, toNatLE, toNatLE, ih, List.length_cons]
    ring

/-- A number that fits is read back from its little-endian form. -/
theorem toNatLE_ofNatLE {count n : Nat} (h : n < 256 ^ count) : toNatLE (ofNatLE count n) = n := by
  induction count generalizing n with
  | zero =>
    have hn : n = 0 := by simpa using h
    simp [ofNatLE, toNatLE, hn]
  | succ count ih =>
    rw [pow_succ] at h
    rw [ofNatLE, toNatLE, ih (by omega), UInt8.toNat_ofNat']
    omega

/-- A byte string is the little-endian form of its number. -/
theorem ofNatLE_toNatLE (b : Bytes) : ofNatLE b.length (toNatLE b) = b := by
  induction b with
  | nil => rfl
  | cons x b ih =>
    have hx := x.toNat_lt
    have hq : (x.toNat + 256 * toNatLE b) / 256 = toNatLE b := by omega
    have hr : UInt8.ofNat (x.toNat + 256 * toNatLE b) = x := by
      rw [← UInt8.toNat_inj, UInt8.toNat_ofNat']
      omega
    rw [List.length_cons, toNatLE, ofNatLE, hq, hr, ih]

/-- A shift to the left by whole bytes multiplies by a power of 256. -/
theorem shiftLeft_bytes (n count : Nat) : n <<< (8 * count) = n * 256 ^ count := by
  rw [Nat.shiftLeft_eq, Nat.pow_mul]

/-- A shift to the right by whole bytes divides by a power of 256. -/
theorem shiftRight_bytes (n count : Nat) : n >>> (8 * count) = n / 256 ^ count := by
  rw [Nat.shiftRight_eq_div_pow, Nat.pow_mul]

/-- Dropping bytes drops the lowest digits. -/
theorem toNatLE_drop (b : Bytes) (count : Nat) :
    toNatLE (b.drop count) = toNatLE b / 256 ^ count := by
  induction b generalizing count with
  | nil => simp [toNatLE]
  | cons x b ih =>
    have hx := x.toNat_lt
    cases count with
    | zero => rw [List.drop_zero, pow_zero, Nat.div_one]
    | succ count =>
      rw [List.drop_succ_cons, ih, toNatLE, pow_succ', ← Nat.div_div_eq_div_mul]
      congr 1
      omega

/-- Taking bytes takes the lowest digits. -/
theorem toNatLE_take (b : Bytes) (count : Nat) :
    toNatLE (b.take count) = toNatLE b % 256 ^ count := by
  induction b generalizing count with
  | nil => simp [toNatLE]
  | cons x b ih =>
    have hx := x.toNat_lt
    cases count with
    | zero => rw [List.take_zero, pow_zero, Nat.mod_one, toNatLE]
    | succ count =>
      have hdiv : (x.toNat + 256 * toNatLE b) / 256 = toNatLE b := by omega
      have hmod : (x.toNat + 256 * toNatLE b) % 256 = x.toNat := by omega
      rw [List.take_succ_cons, toNatLE, ih, toNatLE, pow_succ', Nat.mod_mul, hdiv, hmod]

/-! ## Most significant byte first -/

/-- The two orders of bytes are each other's reverse. -/
theorem toNatBE_eq_toNatLE_reverse (b : Bytes) : toNatBE b = toNatLE b.reverse := by
  induction b using List.reverseRecOn with
  | nil => rfl
  | append_singleton b x ih =>
    rw [List.reverse_append]
    simp only [toNatBE, List.foldl_append, List.foldl_cons, List.foldl_nil, List.reverse_singleton,
      List.singleton_append, toNatLE] at ih ⊢
    rw [ih, Nat.add_comm]

/-- The big-endian number of a byte string has at most as many digits as there are bytes. -/
theorem toNatBE_lt (b : Bytes) : toNatBE b < 256 ^ b.length := by
  rw [toNatBE_eq_toNatLE_reverse, ← List.length_reverse]
  exact toNatLE_lt b.reverse

/-- Bytes in front of others count from a higher power of 256 on. -/
theorem toNatBE_append (a b : Bytes) :
    toNatBE (a ++ b) = toNatBE a * 256 ^ b.length + toNatBE b := by
  rw [toNatBE_eq_toNatLE_reverse, List.reverse_append, toNatLE_append, List.length_reverse,
    ← toNatBE_eq_toNatLE_reverse, ← toNatBE_eq_toNatLE_reverse]
  ring

@[simp]
theorem toNatBE_nil : toNatBE [] = 0 :=
  rfl

/-- The first byte counts most. -/
theorem toNatBE_cons (x : UInt8) (b : Bytes) :
    toNatBE (x :: b) = x.toNat * 256 ^ b.length + toNatBE b := by
  rw [← List.singleton_append, toNatBE_append]
  simp [toNatBE]

/-- A number that fits is read back from its big-endian form. -/
theorem toNatBE_ofNatBE {count n : Nat} (h : n < 256 ^ count) : toNatBE (ofNatBE count n) = n := by
  rw [toNatBE_eq_toNatLE_reverse, ofNatBE, List.reverse_reverse, toNatLE_ofNatLE h]

/-- A byte string is the big-endian form of its number. -/
theorem ofNatBE_toNatBE (b : Bytes) : ofNatBE b.length (toNatBE b) = b := by
  rw [toNatBE_eq_toNatLE_reverse, ofNatBE, ← List.length_reverse, ofNatLE_toNatLE,
    List.reverse_reverse]

/-- Zeros in front do not count. -/
theorem toNatBE_replicate_zero_append (count : Nat) (b : Bytes) :
    toNatBE (List.replicate count 0 ++ b) = toNatBE b := by
  induction count with
  | zero => rfl
  | succ count ih => rw [List.replicate_succ, List.cons_append, toNatBE_cons, ih]; simp

/-! ## Numbers of digits -/

/-- The bit length is the exponent of the first power of two that is larger. -/
theorem bitLength_le_iff {n k : Nat} : bitLength n ≤ k ↔ n < 2 ^ k := by
  rw [bitLength]
  split
  next h => simp [h]
  next h => rw [← Nat.log2_lt h]; omega

/-- The byte length is the exponent of the first power of 256 that is larger. -/
theorem byteLength_le_iff {n k : Nat} : byteLength n ≤ k ↔ n < 256 ^ k := by
  have hpow : 256 ^ k = 2 ^ (8 * k) := by simp [pow_mul]
  rw [byteLength, hpow, ← bitLength_le_iff]
  omega

/-- A number fits into its byte length. -/
theorem lt_pow_byteLength (n : Nat) : n < 256 ^ byteLength n :=
  byteLength_le_iff.mp (Nat.le_refl _)

/-- A larger number needs no fewer bytes. -/
theorem byteLength_mono {m n : Nat} (h : m ≤ n) : byteLength m ≤ byteLength n :=
  byteLength_le_iff.mpr (Nat.lt_of_le_of_lt h (lt_pow_byteLength n))

/-- The least number of bytes is the number of bytes of a byte string without a leading zero. -/
theorem byteLength_toNatBE {x : UInt8} {b : Bytes} (h : x ≠ 0) :
    byteLength (toNatBE (x :: b)) = b.length + 1 := by
  have hle : byteLength (toNatBE (x :: b)) ≤ b.length + 1 :=
    byteLength_le_iff.mpr (toNatBE_lt (x :: b))
  have hx : x.toNat ≠ 0 := fun h0 => h (UInt8.toNat_inj.mp h0)
  have hge : ¬ byteLength (toNatBE (x :: b)) ≤ b.length := by
    rw [byteLength_le_iff, toNatBE_cons]
    have := Nat.le_mul_of_pos_left (256 ^ b.length) (Nat.pos_of_ne_zero hx)
    omega
  omega

/-! ## The least number of bytes -/

/-- The shortest form of a number has its byte length. -/
@[simp]
theorem length_ofNat (n : Nat) : (ofNat n).length = byteLength n := by
  simp [ofNat]

/-- A number is read back from its shortest form. -/
@[simp]
theorem toNatBE_ofNat (n : Nat) : toNatBE (ofNat n) = n :=
  toNatBE_ofNatBE (lt_pow_byteLength n)

/-- A byte string without a leading zero is written with the least number of bytes. -/
theorem ofNat_toNatBE {b : Bytes} (h : b.head? ≠ some 0) : ofNat (toNatBE b) = b := by
  cases b with
  | nil => rfl
  | cons x b =>
    have hx : x ≠ 0 := by simpa using h
    rw [ofNat, byteLength_toNatBE hx]
    exact ofNatBE_toNatBE (x :: b)

/-- The least number of bytes leaves no leading zero. -/
theorem head?_ofNat (n : Nat) : (ofNat n).head? ≠ some 0 := by
  intro h
  obtain ⟨b, hb⟩ : ∃ b, ofNat n = 0 :: b := by
    cases hn : ofNat n with
    | nil => simp [hn] at h
    | cons x b => exact ⟨b, by simpa [hn] using h⟩
  -- Without its leading zero the byte string would be shorter and still write `n`.
  have hlen : byteLength n = b.length + 1 := by rw [← length_ofNat, hb, List.length_cons]
  have hval : toNatBE b = n := by
    rw [← toNatBE_ofNat n, hb, toNatBE_cons]
    simp
  have hlt := toNatBE_lt b
  rw [hval, ← byteLength_le_iff, hlen] at hlt
  omega

/-! ## Hexadecimal -/

/-- The hexadecimal digit of a value is read as that value. -/
theorem hexValue?_hexDigit {v : Nat} (h : v < 16) : hexValue? (hexDigit v) = some v := by
  have hdigits : ∀ v < 16, hexValue? (hexDigit v) = some v := by decide
  exact hdigits v h

/-- The two digits of a byte are read back, whatever follows. -/
theorem ofHexDigits?_hexPair_append (x : UInt8) (s : List Char) :
    ofHexDigits? (hexPair x ++ s) = (ofHexDigits? s).map (x :: ·) := by
  have hx := x.toNat_lt
  have hhigh := hexValue?_hexDigit (show x.toNat / 16 < 16 by omega)
  have hlow := hexValue?_hexDigit (show x.toNat % 16 < 16 by omega)
  have hbyte : UInt8.ofNat (16 * (x.toNat / 16) + x.toNat % 16) = x := by
    rw [Nat.div_add_mod, UInt8.ofNat_toNat]
  simp only [hexPair, List.cons_append, List.nil_append, ofHexDigits?, hhigh, hlow]
  cases ofHexDigits? s with
  | none => rfl
  | some b => exact congrArg (fun y => some (y :: b)) hbyte

/-- A byte string is read back from its hexadecimal text. -/
theorem ofHex?_hex (b : Bytes) : ofHex? (hex b) = some b := by
  rw [ofHex?, hex, String.toList_ofList]
  induction b with
  | nil => rfl
  | cons x b ih => rw [List.flatMap_cons, ofHexDigits?_hexPair_append, ih, Option.map_some]

/-- Two byte strings with one hexadecimal text are equal. -/
theorem hex_injective {a b : Bytes} (h : hex a = hex b) : a = b := by
  have hread := congrArg ofHex? h
  rw [ofHex?_hex, ofHex?_hex] at hread
  exact Option.some.inj hread

end PeerIdentity.Bytes
