import Mathlib.Data.Nat.Digits.Lemmas
import PeerIdentity.Proofs.Bytes
import PeerIdentity.Proofs.Result
import PeerIdentity.Text.Base58

/-!
# Base 58 is a bijection

The texts over the alphabet and the byte strings correspond to each other: leading `1`s to leading
zero bytes, and the digits after them to the number that the bytes after the zeros write.

* `decode_encode`, `encode_of_decode`: the two directions;
* `encode_lead_zero`: a byte string that starts with zero is written with a leading `1`;
* `encode_sha256_form`: every byte string of 34 bytes that starts with 18 and 32 is written with
  `Qm` in front, since `58 ^ 44` divides both ends of the range of its number with quotient
  `1378 = 23 * 58 + 44`;
* `number_eq_error_iff`: a text is refused for its first character that is no digit;
* `decode_pairs_encode`: the texts over the alphabet and the byte strings are paired.
-/

namespace PeerIdentity.Base58

/-! ## Digits -/

/-- The digit of a value is read as that value. -/
theorem value?_digit {v : Nat} (h : v < 58) : value? (digit v) = some v := by
  have hall : ∀ v < 58, value? (digit v) = some v := by decide +kernel
  exact hall v h

/-- Each character with a value is the digit of that value. -/
theorem digit_of_value? {c : Char} {v : Nat} (h : value? c = some v) : v < 58 ∧ digit v = c := by
  obtain ⟨hlt, hc, -⟩ := List.findIdx?_eq_some_iff_getElem.mp h
  have hlen : alphabet.length = 58 := by decide +kernel
  refine ⟨hlen ▸ hlt, ?_⟩
  simpa [digit, List.getD_eq_getElem?_getD, hlt] using hc

/-- Only zero is written as the digit one. -/
theorem digit_eq_one_iff {v : Nat} (h : v < 58) : digit v = '1' ↔ v = 0 := by
  have hall : ∀ v < 58, digit v = '1' ↔ v = 0 := by decide +kernel
  exact hall v h

/-- The digit values are the digits to the base 58, from the least significant one. -/
theorem digitValues_eq_digits (n : Nat) : digitValues n = Nat.digits 58 n := by
  induction n using Nat.strongRecOn with
  | ind n ih =>
    rw [digitValues]
    split
    next h => simp [h]
    next h => rw [Nat.digits_def' (by decide) (by omega), ih _ (by omega)]

/-! ## Leading elements -/

/-- A list is its leading `a`s and a rest that does not start with `a`. -/
theorem exists_replicate_append {α : Type} [DecidableEq α] (a : α) (l : List α) :
    ∃ count rest, l = List.replicate count a ++ rest ∧ rest.head? ≠ some a := by
  induction l with
  | nil => exact ⟨0, [], rfl, by simp⟩
  | cons x l ih =>
    obtain ⟨count, rest, rfl, hrest⟩ := ih
    by_cases hx : x = a
    · exact ⟨count + 1, rest, by rw [hx, List.replicate_succ, List.cons_append], hrest⟩
    · exact ⟨0, x :: (List.replicate count a ++ rest), rfl, by simpa using hx⟩

/-- The copies of an element before the first other element are counted. -/
theorem length_takeWhile_replicate_append {α : Type} [DecidableEq α] {a : α} {count : Nat}
    {rest : List α} (h : rest.head? ≠ some a) :
    ((List.replicate count a ++ rest).takeWhile (· = a)).length = count := by
  rw [List.takeWhile_append_of_pos (by simp)]
  cases rest with
  | nil => simp
  | cons x rest =>
    have hx : x ≠ a := by simpa using h
    simp [hx]

/-! ## Numbers -/

/-- One more digit multiplies the number by 58 and adds the value of the digit. -/
theorem number_append_singleton (s : List Char) (c : Char) :
    number (s ++ [c]) =
      (number s).bind fun n => ((value? c).map (58 * n + ·)).elim (.error c) .ok := by
  rw [number, List.foldlM_append]
  refine bind_congr fun n => ?_
  rw [List.foldlM_cons]
  cases value? c <;> rfl

/-- Digits write the number that their values write. -/
theorem number_map_digit {vs : List Nat} (h : ∀ v ∈ vs, v < 58) :
    number (vs.map digit) = .ok (Nat.ofDigits 58 vs.reverse) := by
  induction vs using List.reverseRecOn with
  | nil => rfl
  | append_singleton vs v ih =>
    have hv := value?_digit (h v (by simp))
    have ih := ih fun v hv => h v (by simp [hv])
    have hvalue : Nat.ofDigits 58 (vs ++ [v]).reverse = 58 * Nat.ofDigits 58 vs.reverse + v := by
      rw [List.reverse_append, List.reverse_singleton, List.singleton_append, Nat.ofDigits_cons]
      exact Nat.add_comm v _
    rw [List.map_append, List.map_singleton, number_append_singleton, ih, hvalue, hv]
    rfl

/-- A text that writes a number consists of digits. -/
theorem exists_values_of_number {s : List Char} {n : Nat} (h : number s = .ok n) :
    ∃ vs : List Nat, (∀ v ∈ vs, v < 58) ∧ s = vs.map digit := by
  -- A number is read digit by digit from the left, so the last character is taken off first.
  induction s using List.reverseRecOn generalizing n with
  | nil => exact ⟨[], by simp, rfl⟩
  | append_singleton s c ih =>
    rw [number_append_singleton] at h
    cases hs : number s with
    | error _ => simp [hs, Except.bind] at h
    | ok m =>
      cases hc : value? c with
      | none => simp [hs, hc, Except.bind] at h
      | some v =>
        obtain ⟨vs, hvs, rfl⟩ := ih hs
        obtain ⟨hv, rfl⟩ := digit_of_value? hc
        refine ⟨vs ++ [v], ?_, by simp⟩
        exact List.forall_mem_append.mpr ⟨hvs, List.forall_mem_singleton.mpr hv⟩

/-! ## Texts -/

/-- Zero bytes in front are written as ones, and the rest as the digits of its number. -/
theorem encode_replicate_append (count : Nat) {b : Bytes} (h : b.head? ≠ some 0) :
    encode (List.replicate count 0 ++ b) =
      String.ofList (List.replicate count '1' ++
        (Nat.digits 58 (Bytes.toNatBE b)).reverse.map digit) := by
  rw [encode]
  simp only [length_takeWhile_replicate_append h, Bytes.toNatBE_replicate_zero_append,
    digitValues_eq_digits]

/-- Ones in front are read as zero bytes, and the rest as the number of its digits. -/
theorem decode_replicate_append {count : Nat} {vs : List Nat} (hvs : ∀ v ∈ vs, v < 58)
    (h : vs.head? ≠ some 0) :
    decode (String.ofList (List.replicate count '1' ++ vs.map digit)) =
      .ok (List.replicate count 0 ++ Bytes.ofNat (Nat.ofDigits 58 vs.reverse)) := by
  have hone : digit 0 = '1' := by decide +kernel
  have hhead : (vs.map digit).head? ≠ some '1' := by
    cases vs with
    | nil => simp
    | cons v vs =>
      simpa [digit_eq_one_iff (hvs v (by simp))] using h
  -- The leading ones are digits, too, which add nothing to the number.
  have hall : List.replicate count '1' ++ vs.map digit =
      (List.replicate count 0 ++ vs).map digit := by
    simp [hone]
  have hlt : ∀ v ∈ List.replicate count 0 ++ vs, v < 58 := by
    refine List.forall_mem_append.mpr ⟨fun v hv => ?_, hvs⟩
    simp [(List.mem_replicate.mp hv).2]
  rw [decode, String.toList_ofList]
  simp only [length_takeWhile_replicate_append hhead]
  rw [hall, number_map_digit hlt, List.reverse_append, List.reverse_replicate,
    Nat.ofDigits_append_replicate_zero]
  rfl

/-- The digits of a number do not start with zero. -/
theorem head?_digits_reverse (n : Nat) : (Nat.digits 58 n).reverse.head? ≠ some 0 := by
  rw [List.head?_reverse]
  intro h
  have hne : Nat.digits 58 n ≠ [] := fun hnil => by simp [hnil] at h
  have hn : n ≠ 0 := Nat.digits_ne_nil_iff_ne_zero.mp hne
  refine Nat.getLast_digit_ne_zero 58 hn ?_
  simpa [List.getLast?_eq_some_getLast hne] using h

/-- Reading undoes writing. -/
theorem decode_encode (b : Bytes) : decode (encode b) = .ok b := by
  obtain ⟨count, b, rfl, hb⟩ := exists_replicate_append 0 b
  rw [encode_replicate_append _ hb, decode_replicate_append _ (head?_digits_reverse _)]
  · rw [List.reverse_reverse, Nat.ofDigits_digits, Bytes.ofNat_toNatBE hb]
  · intro v hv
    exact Nat.digits_lt_base (by decide) (List.mem_reverse.mp hv)

/-- Writing undoes reading. -/
theorem encode_of_decode {s : String} {b : Bytes} (h : decode s = .ok b) : encode b = s := by
  obtain ⟨n, hn, -⟩ : ∃ n, number s.toList = .ok n ∧
      List.replicate (s.toList.takeWhile (· = '1')).length 0 ++ Bytes.ofNat n = b := by
    rw [decode] at h
    cases hn : number s.toList with
    | error c => simp [hn, Except.map] at h
    | ok n => exact ⟨n, rfl, by simpa [hn, Except.map] using h⟩
  -- The leading ones are written from the zero bytes, and the other digits from the number.
  obtain ⟨vs, hvs, hs⟩ := exists_values_of_number hn
  obtain ⟨count, vs, rfl, hhead⟩ := exists_replicate_append 0 vs
  have hvs : ∀ v ∈ vs, v < 58 := fun v hv => hvs v (by simp [hv])
  have hone : digit 0 = '1' := by decide +kernel
  obtain rfl : String.ofList (List.replicate count '1' ++ vs.map digit) = s := by
    rw [← String.toList_inj, String.toList_ofList, hs]
    simp [hone]
  rw [decode_replicate_append hvs hhead] at h
  obtain rfl : List.replicate count 0 ++ Bytes.ofNat (Nat.ofDigits 58 vs.reverse) = b := by
    simpa using h
  rw [encode_replicate_append _ (Bytes.head?_ofNat _), Bytes.toNatBE_ofNat, Nat.digits_ofDigits 58,
    List.reverse_reverse]
  · decide
  · simpa using hvs
  · intro hne h0
    refine hhead ?_
    rw [← List.reverse_reverse vs, List.head?_reverse, List.getLast?_eq_some_getLast hne, h0]

/-! ## First characters -/

/-- A byte string that starts with zero has a text that starts with a one. -/
theorem encode_lead_zero (b : Bytes) : (encode (0 :: b)).toList.head? = some '1' := by
  obtain ⟨count, rest, hb, hrest⟩ := exists_replicate_append 0 b
  have hb : (0 : UInt8) :: b = List.replicate (count + 1) 0 ++ rest := by
    rw [hb, List.replicate_succ, List.cons_append]
  rw [hb, encode_replicate_append _ hrest, String.toList_ofList]
  simp [List.replicate_succ]

/-- The numbers from `1378 * 58 ^ 44` up to below `1379 * 58 ^ 44` have the first digits 23 and
44. -/
theorem digits_of_quotient {n : Nat} (h : n / 58 ^ 44 = 1378) :
    ∃ vs, Nat.digits 58 n = vs ++ [44, 23] := by
  set low := n % 58 ^ 44 with hlow
  have hlen : (Nat.digits 58 low).length ≤ 44 :=
    Nat.digits_length_le_iff (by decide) low |>.mpr (Nat.mod_lt _ (by positivity))
  -- The low digits are filled up with zeros to 44 digits, and the quotient follows.
  have hn : n = low +
      58 ^ ((Nat.digits 58 low).length + (44 - (Nat.digits 58 low).length)) * 1378 := by
    rw [Nat.add_sub_cancel' hlen, hlow, ← h, Nat.mod_add_div]
  have htop : Nat.digits 58 1378 = [44, 23] := by norm_num
  rw [hn, ← Nat.digits_append_zeroes_append_digits (by decide) (by decide), htop]
  exact ⟨_, rfl⟩

/-- The forms of SHA-256 multihashes are written with `Qm` in front. -/
theorem encode_sha256_form {d : Bytes} (h : d.length = 32) :
    ∃ s, (encode (0x12 :: 0x20 :: d)).toList = 'Q' :: 'm' :: s := by
  have hd := Bytes.toNatBE_lt d
  have hquot : Bytes.toNatBE (0x12 :: 0x20 :: d) / 58 ^ 44 = 1378 := by
    rw [Bytes.toNatBE_cons, Bytes.toNatBE_cons, List.length_cons, h]
    rw [h] at hd
    simp only [UInt8.reduceToNat]
    omega
  obtain ⟨vs, hvs⟩ := digits_of_quotient hquot
  have hhead : (0x12 :: 0x20 :: d : Bytes).head? ≠ some 0 := by simp
  have hencode := encode_replicate_append 0 hhead
  rw [List.replicate_zero, List.replicate_zero, List.nil_append, List.nil_append, hvs] at hencode
  rw [hencode, String.toList_ofList]
  -- The first digits of the number are 23 and 44.
  have hQ : digit 23 = 'Q' := by decide +kernel
  have hm : digit 44 = 'm' := by decide +kernel
  exact ⟨vs.reverse.map digit, by simp [hQ, hm]⟩

/-! ## Texts over the alphabet -/

/-- The characters of the alphabet are those with a value. -/
theorem value?_eq_none_iff {c : Char} : value? c = none ↔ c ∉ alphabet := by
  have hne : (∀ d ∈ alphabet, ¬ d = c) ↔ c ∉ alphabet :=
    ⟨fun h hc => h c hc rfl, fun h d hd hdc => h (hdc ▸ hd)⟩
  rw [← hne, value?, List.findIdx?_eq_none_iff]
  simp only [decide_eq_false_iff_not]

/-- A text is refused for the first of its characters that is no digit. -/
theorem number_eq_error_iff {s : List Char} {c : Char} :
    number s = .error c ↔ s.find? (· ∉ alphabet) = some c := by
  induction s using List.reverseRecOn generalizing c with
  | nil => simp [number, pure, Except.pure]
  | append_singleton s d ih =>
    rw [number_append_singleton, List.find?_append]
    cases hs : number s with
    | error c' =>
      rw [ih.mp hs, Option.some_or]
      simp [Except.bind]
    | ok n =>
      -- The characters before the last one are digits, so the last one decides.
      have hnone : s.find? (· ∉ alphabet) = none := by
        cases hfind : s.find? (· ∉ alphabet) with
        | none => rfl
        | some c' =>
          rw [ih.mpr hfind] at hs
          cases hs
      rw [hnone, Option.none_or, List.find?_singleton]
      cases hd : value? d with
      | none => simp [value?_eq_none_iff.mp hd, Except.bind]
      | some v =>
        have hmem : d ∈ alphabet := by
          by_contra hmem
          rw [value?_eq_none_iff.mpr hmem] at hd
          cases hd
        simp [hmem, Except.bind]

/-- A text is refused for its first character beyond the alphabet. -/
theorem decode_eq_error_iff {s : String} {c : Char} :
    decode s = .error c ↔ s.toList.find? (· ∉ alphabet) = some c := by
  rw [← number_eq_error_iff, decode]
  cases number s.toList <;> simp [Except.map]

/-- The texts over the alphabet are those that are read. -/
theorem exists_decode_iff {s : String} :
    (∃ b, decode s = .ok b) ↔ ∀ c ∈ s.toList, c ∈ alphabet := by
  have hnone : (∀ c, decode s ≠ .error c) ↔ ∀ c ∈ s.toList, c ∈ alphabet := by
    simp only [ne_eq, decode_eq_error_iff, ← Option.eq_none_iff_forall_ne_some]
    simp
  rw [← hnone]
  cases decode s with
  | ok b => simp
  | error c => simp

/-- The digits of a byte string write its number. -/
theorem number_encode (b : Bytes) : number (encode b).toList = .ok (Bytes.toNatBE b) := by
  have hread := decode_encode b
  rw [decode, map_eq_ok_iff] at hread
  obtain ⟨n, hn, hb⟩ := hread
  rw [hn, ← hb, Bytes.toNatBE_replicate_zero_append, Bytes.toNatBE_ofNat]

/-- A byte string is written with as many leading ones as it has leading zero bytes. -/
theorem length_leading_encode (b : Bytes) :
    ((encode b).toList.takeWhile (· = '1')).length = (b.takeWhile (· = 0)).length := by
  obtain ⟨n, -, hb⟩ := map_eq_ok_iff.mp (decode_encode b)
  generalize encode b = s at hb
  rw [← hb, length_takeWhile_replicate_append (Bytes.head?_ofNat n)]

/-- The texts over the alphabet and the byte strings are paired. Every byte string is written with
characters of the alphabet and is read back. A text is read exactly if all of its characters are in
the alphabet, it is then the text of what is read, and any other text is refused for its first
character outside. A text and its byte string write one number, and as many digits `1` lead the
text as zero bytes lead the byte string, so that zero bytes alone are written with as many ones
alone. -/
theorem decode_pairs_encode :
    (alphabet.length = 58 ∧ alphabet.Nodup) ∧
    (∀ b : Bytes, decode (encode b) = .ok b ∧ ∀ c ∈ (encode b).toList, c ∈ alphabet) ∧
    (∀ s : String, (∃ b, decode s = .ok b) ↔ ∀ c ∈ s.toList, c ∈ alphabet) ∧
    (∀ (s : String) (b : Bytes), decode s = .ok b →
      encode b = s ∧
      (s.toList.takeWhile (· = '1')).length = (b.takeWhile (· = 0)).length) ∧
    (∀ (s : String) (c : Char),
      decode s = .error c ↔ s.toList.find? (· ∉ alphabet) = some c) ∧
    (∀ b : Bytes, number (encode b).toList = .ok (Bytes.toNatBE b) ∧
      ((encode b).toList.takeWhile (· = '1')).length = (b.takeWhile (· = 0)).length) ∧
    ∀ count : Nat, encode (List.replicate count 0) = String.ofList (List.replicate count '1') := by
  refine ⟨by decide +kernel, fun b => ⟨decode_encode b, ?_⟩, fun s => exists_decode_iff,
    fun s b h => ?_, fun s c => decode_eq_error_iff,
    fun b => ⟨number_encode b, length_leading_encode b⟩, fun count => ?_⟩
  · exact exists_decode_iff.mp ⟨b, decode_encode b⟩
  · obtain rfl := encode_of_decode h
    exact ⟨rfl, length_leading_encode b⟩
  -- No byte follows the zeros, so no digit follows the ones.
  · have hform := encode_replicate_append count (b := []) (by simp)
    simpa using hform

/-- The text `112g` is over the alphabet, and it is the text of two zero bytes and the byte 97. -/
theorem decode_pairs_encode_112g :
    (∀ c ∈ "112g".toList, c ∈ alphabet) ∧ decode "112g" = .ok [0, 0, 97] ∧
      encode [0, 0, 97] = "112g" := by
  obtain ⟨-, -, hread, hpair, -⟩ := decode_pairs_encode
  have hdecode : decode "112g" = .ok [0, 0, 97] := by decide +kernel
  exact ⟨(hread "112g").mp ⟨_, hdecode⟩, hdecode, (hpair _ _ hdecode).1⟩

end PeerIdentity.Base58
