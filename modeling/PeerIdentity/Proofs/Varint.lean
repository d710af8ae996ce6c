import Mathlib.Tactic.Ring
import PeerIdentity.Proofs.Result
import PeerIdentity.Varint

/-!
# Variable-length integers have one form

Reading an integer undoes writing it, and what is read was written by `encode`:

* `read_encode`: `read (encode n ++ rest)` returns `n` and `rest` when `n` is below the bound;
* `encode_append_inj`: no form is the start of another one;
* `eq_encode_append_of_read`: bytes that start with the form of `n` start with `encode n`;
* `read_eq_ok_iff`: both together;
* `read_append_of_error`: what is refused is refused whatever follows, unless it is cut off;
* `decodeAt_inverts_encode`: the same at any position of a buffer, with the number of bytes in place
  of the bytes that are left.

The third is the inductive part. The groups of an integer determine its form as soon as the last
of several groups is not zero, since then the number that the later groups write is positive.
-/

namespace PeerIdentity.Varint

/-! ## Forms -/

/-- A number below 128 is one byte. -/
theorem encode_of_lt {n : Nat} (h : n < 128) : encode n = [UInt8.ofNat n] := by
  rw [encode, if_pos h]

/-- A larger number is its lowest seven bits, marked as not the last, and the rest. -/
theorem encode_of_le {n : Nat} (h : 128 ≤ n) :
    encode n = UInt8.ofNat (n % 128 + 128) :: encode (n / 128) := by
  rw [encode, if_neg (by omega)]

/-- No number is written as nothing. -/
@[simp]
theorem encode_ne_nil (n : Nat) : encode n ≠ [] := by
  rw [encode]
  split <;> simp

/-- A byte of a form but the last has the high bit and the digit. -/
private theorem toNat_digit (n : Nat) : (UInt8.ofNat (n % 128 + 128)).toNat = n % 128 + 128 := by
  rw [UInt8.toNat_ofNat']
  omega

/-- The last byte of a form is its digit, without the high bit. -/
private theorem ofNat_lt {n : Nat} (h : n < 128) : UInt8.ofNat n < 128 := by
  rw [UInt8.lt_iff_toNat_lt, UInt8.toNat_ofNat', Nat.mod_eq_of_lt (by omega)]
  exact h

/-- A number without its lowest digit has one digit less. -/
private theorem div_lt_pow {count n : Nat} (h : n < 128 ^ (count + 1)) : n / 128 < 128 ^ count := by
  rw [pow_succ'] at h
  exact Nat.div_lt_of_lt_mul h

/-- A form writes its integer. -/
@[simp]
theorem value_encode (n : Nat) : value (encode n) = n := by
  induction n using Nat.strongRecOn with
  | ind n ih =>
    rcases Nat.lt_or_ge n 128 with h | h
    · rw [encode_of_lt h]
      simp [value, UInt8.toNat_ofNat']
      omega
    · have ih := ih (n / 128) (by omega)
      rw [encode_of_le h]
      simp only [value, List.foldr_cons, toNat_digit] at ih ⊢
      rw [ih]
      omega

/-- The last of several bytes of a form is not zero. -/
theorem getLast?_encode_ne_zero {n : Nat} (h : 1 < (encode n).length) :
    (encode n).getLast? ≠ some 0 := by
  induction n using Nat.strongRecOn with
  | ind n ih =>
    rcases Nat.lt_or_ge n 128 with hn | hn
    · simp [encode_of_lt hn] at h
    rw [encode_of_le hn]
    rcases Nat.lt_or_ge (n / 128) 128 with hq | hq
    · rw [encode_of_lt hq]
      -- The quotient is a positive digit.
      intro h0
      have h0 : UInt8.ofNat (n / 128) = 0 := by simpa using h0
      have h0 := congrArg UInt8.toNat h0
      rw [UInt8.toNat_ofNat'] at h0
      simp at h0
      omega
    · have hlen : 1 < (encode (n / 128)).length := by
        rw [encode_of_le hq]
        simp [List.length_pos_iff]
      simpa [List.getLast?_cons, List.getLast?_eq_some_getLast (encode_ne_nil _)] using
        ih (n / 128) (by omega) hlen

/-! ## Reading what was written -/

/-- The groups of a form are read back when there are enough of them. -/
theorem readGroups_encode {count n : Nat} (h : n < 128 ^ (count + 1)) (rest : Bytes) :
    readGroups (count + 1) (encode n ++ rest) = .ok (encode n, rest) := by
  induction count generalizing n with
  | zero =>
    have hn : n < 128 := by simpa using h
    simp [encode_of_lt hn, readGroups, ofNat_lt hn]
  | succ count ih =>
    -- The form is a single group, or a group that says that more follow and the form of the rest.
    rcases Nat.lt_or_ge n 128 with hn | hn
    · simp [encode_of_lt hn, readGroups, ofNat_lt hn]
    · have hx : ¬ UInt8.ofNat (n % 128 + 128) < 128 := by
        rw [UInt8.lt_iff_toNat_lt, toNat_digit]
        simp
      rw [encode_of_le hn, List.cons_append, readGroups, if_neg hx, ih (div_lt_pow h)]

/-- No form is the start of another one, so a form ends where its integer says, whatever follows. -/
theorem encode_append_inj {m n : Nat} {r s : Bytes} (h : encode m ++ r = encode n ++ s) :
    m = n ∧ r = s := by
  -- Both forms are read with as many groups as either integer needs.
  have hpow {k : Nat} (hk : k ≤ m + n) : k < 128 ^ (m + n + 1) :=
    Nat.lt_of_lt_of_le (Nat.lt_pow_self (by decide)) (Nat.pow_le_pow_right (by decide) (by omega))
  have hread := readGroups_encode (hpow (Nat.le_add_right m n)) r
  rw [h, readGroups_encode (hpow (Nat.le_add_left n m)) s] at hread
  obtain ⟨hforms, hrest⟩ := Prod.mk.inj (Except.ok.inj hread)
  refine ⟨?_, hrest.symm⟩
  rw [← value_encode m, ← hforms, value_encode]

/-- Reading undoes writing, whatever follows. -/
theorem read_encode {n : Nat} (h : n < limit) (rest : Bytes) :
    read (encode n ++ rest) = .ok (n, rest) := by
  have hn : n < 128 ^ (9 + 1) := Nat.lt_of_lt_of_le h (by decide)
  rw [read, maxLength, readGroups_encode hn]
  simp only [value_encode]
  rw [if_neg (fun hz => getLast?_encode_ne_zero hz.1 hz.2), if_neg (by omega)]

/-! ## What is read was written -/

/-- Groups whose last one is not zero, or that are a single one, are the form of their number. -/
theorem encode_value_of_readGroups {count : Nat} {b groups rest : Bytes}
    (h : readGroups count b = .ok (groups, rest))
    (hmin : ¬ (1 < groups.length ∧ groups.getLast? = some 0)) :
    encode (value groups) = groups := by
  induction count generalizing b groups with
  | zero => simp [readGroups] at h
  | succ count ih =>
    cases b with
    | nil => simp [readGroups] at h
    | cons x b =>
      simp only [readGroups] at h
      split at h
      next hx =>
        obtain ⟨rfl, rfl⟩ : [x] = groups ∧ b = rest := by simpa using h
        have hx : x.toNat < 128 := by simpa [UInt8.lt_iff_toNat_lt] using hx
        have hv : value [x] = x.toNat := by simp [value]; omega
        rw [hv, encode_of_lt hx, UInt8.ofNat_toNat]
      next hx =>
        split at h
        next gs r hg =>
          obtain ⟨rfl, rfl⟩ : x :: gs = groups ∧ r = rest := by simpa using h
          have hne := (eq_append_of_readGroups hg).2
          have hlast : gs.getLast? ≠ some 0 := by
            intro h0
            refine hmin ⟨by simpa [List.length_pos_iff] using hne, ?_⟩
            simp [List.getLast?_cons, h0]
          have hgs := ih hg fun hz => hlast hz.2
          -- The later groups write a positive number: the form of zero ends in zero.
          have hpos : 0 < value gs := by
            rw [Nat.pos_iff_ne_zero]
            intro h0
            rw [h0, encode_of_lt (by decide)] at hgs
            exact hlast (by rw [← hgs]; rfl)
          have hx : 128 ≤ x.toNat := by
            simpa [UInt8.lt_iff_toNat_lt] using hx
          have hv : value (x :: gs) = x.toNat % 128 + 128 * value gs := rfl
          have hx' := x.toNat_lt
          have hq : value (x :: gs) / 128 = value gs := by omega
          have hr : value (x :: gs) % 128 + 128 = x.toNat := by omega
          rw [encode_of_le (by omega), hq, hr, hgs, UInt8.ofNat_toNat]
        next => simp at h

/-- What is read is below the bound and was written before the rest. -/
theorem eq_encode_append_of_read {b rest : Bytes} {n : Nat} (h : read b = .ok (n, rest)) :
    n < limit ∧ b = encode n ++ rest := by
  unfold read at h
  split at h
  next => simp at h
  next groups r hg =>
    split at h
    next => simp at h
    next hmin =>
      split at h
      next => simp at h
      next hlt =>
        obtain ⟨rfl, rfl⟩ : value groups = n ∧ r = rest := by simpa using h
        refine ⟨by omega, ?_⟩
        rw [encode_value_of_readGroups hg hmin]
        exact (eq_append_of_readGroups hg).1

/-- The integers that are read are those below the bound, each from its one form. -/
theorem read_eq_ok_iff {b rest : Bytes} {n : Nat} :
    read b = .ok (n, rest) ↔ n < limit ∧ b = encode n ++ rest := by
  constructor
  · exact eq_encode_append_of_read
  · rintro ⟨hn, rfl⟩
    exact read_encode hn rest

/-! ## What follows -/

/-- What follows groups plays no part in reading them. -/
theorem readGroups_append_of_ok {count : Nat} {b groups rest : Bytes}
    (h : readGroups count b = .ok (groups, rest)) (c : Bytes) :
    readGroups count (b ++ c) = .ok (groups, rest ++ c) := by
  induction count generalizing b groups with
  | zero => cases h
  | succ count ih =>
    cases b with
    | nil => cases h
    | cons x b =>
      rw [List.cons_append]
      simp only [readGroups] at h ⊢
      split at h
      next hx =>
        cases h
        rw [if_pos hx]
      next hx =>
        split at h
        next gs r hg =>
          cases h
          rw [if_neg hx, ih hg]
        next => cases h

/-- What follows groups that are refused plays no part either, unless they are cut off. -/
theorem readGroups_append_of_error {count : Nat} {b : Bytes} {fault : Fault}
    (h : readGroups count b = .error fault) (hfault : fault ≠ .truncated) (c : Bytes) :
    readGroups count (b ++ c) = .error fault := by
  induction count generalizing b with
  | zero => exact h
  | succ count ih =>
    cases b with
    | nil => exact absurd (Except.error.inj h).symm hfault
    | cons x b =>
      rw [List.cons_append]
      simp only [readGroups] at h ⊢
      split at h
      next => cases h
      next hx =>
        split at h
        next => cases h
        next f hg =>
          cases h
          rw [if_neg hx, ih hg]

/-- An integer that is refused is refused with the same fault whatever follows, unless it is cut
off. -/
theorem read_append_of_error {b : Bytes} {fault : Fault} (h : read b = .error fault)
    (hfault : fault ≠ .truncated) (c : Bytes) : read (b ++ c) = .error fault := by
  unfold read at h ⊢
  split at h
  next f hg =>
    cases h
    rw [readGroups_append_of_error hg hfault]
  next groups rest hg =>
    rw [readGroups_append_of_ok hg]
    -- The last group and the value do not depend on the rest.
    simp only
    split at h
    next hmin =>
      cases h
      rw [if_pos hmin]
    next hmin =>
      split at h
      next hlarge =>
        cases h
        rw [if_neg hmin, if_pos hlarge]
      next => cases h

/-! ## Positions -/

/-- The integers that have a form are those from 0 up to below `2 ^ 64`. -/
theorem encodeInt_eq_ok_iff {v : Int} {form : Bytes} :
    encodeInt v = .ok form ↔ 0 ≤ v ∧ v < 2 ^ 64 ∧ form = encode v.toNat := by
  have hlimit : (limit : Int) = 2 ^ 64 := by decide
  unfold encodeInt
  rw [hlimit]
  -- A negative integer is refused first, then one of more than 64 binary digits.
  split
  next hneg => exact ⟨nofun, fun h => absurd h.1 (Int.not_le.mpr hneg)⟩
  next hnonneg =>
    split
    next hlarge => exact ⟨nofun, fun h => absurd hlarge (Int.not_le.mpr h.2.1)⟩
    next hsmall =>
      rw [Except.ok.injEq, eq_comm]
      exact ⟨fun h => ⟨Int.not_lt.mp hnonneg, Int.not_le.mp hsmall, h⟩, fun h => h.2.2⟩

/-- An integer of `count` base-128 digits has a form of at most as many bytes. -/
theorem length_encode_le {count n : Nat} (h : n < 128 ^ (count + 1)) :
    (encode n).length ≤ count + 1 := by
  induction count generalizing n with
  | zero =>
    rw [encode_of_lt (by simpa using h)]
    exact Nat.le_refl 1
  | succ count ih =>
    rcases Nat.lt_or_ge n 128 with hn | hn
    · rw [encode_of_lt hn, List.length_singleton]
      omega
    · rw [encode_of_le hn, List.length_cons]
      exact Nat.succ_le_succ (ih (div_lt_pow h))

/-- At a position of a buffer, an integer is read exactly if the bytes there are its form. -/
theorem decodeAt_eq_ok_iff {data : Bytes} {offset v n : Nat} :
    decodeAt data offset = .ok (v, n) ↔
      v < limit ∧ n = (encode v).length ∧ (data.drop offset).take n = encode v := by
  -- The bytes from the position on count the bytes that were read and those that are left.
  have hcount : data.length - offset = (data.drop offset).length := List.length_drop.symm
  rw [decodeAt, map_eq_ok_iff, hcount]
  constructor
  · rintro ⟨⟨w, rest⟩, hread, hresult⟩
    obtain ⟨hlt, hdata⟩ := eq_encode_append_of_read hread
    obtain ⟨rfl, rfl⟩ := Prod.mk.inj hresult
    rw [hdata, List.length_append, Nat.add_sub_cancel]
    exact ⟨hlt, rfl, List.take_left' rfl⟩
  · rintro ⟨hlt, rfl, htake⟩
    obtain ⟨rest, hdata⟩ : ∃ rest, data.drop offset = encode v ++ rest :=
      ⟨_, by rw [← htake, List.take_append_drop]⟩
    refine ⟨(v, rest), read_eq_ok_iff.mpr ⟨hlt, hdata⟩, ?_⟩
    rw [hdata, List.length_append]
    exact congrArg (Prod.mk v) (Nat.add_sub_cancel _ _)

/-- Decoding inverts encoding at every position of every buffer. An integer is read exactly if it
has a form and the bytes at the position are this form. So each integer below `2 ^ 64` is read from
one byte string only, of one to ten bytes, no form is the beginning of another one, and what follows
the bytes that are read plays no part. -/
theorem decodeAt_inverts_encode :
    (∀ (v : Int) (form : Bytes),
      encodeInt v = .ok form ↔ 0 ≤ v ∧ v < 2 ^ 64 ∧ form = encode v.toNat) ∧
    (∀ (data : Bytes) (offset v n : Nat), decodeAt data offset = .ok (v, n) ↔
      ∃ form, encodeInt v = .ok form ∧ n = form.length ∧ (data.drop offset).take n = form) ∧
    (∀ (v : Int) (form : Bytes), encodeInt v = .ok form →
      1 ≤ form.length ∧ form.length ≤ 10 ∧
      ∀ b : Bytes, decodeAt b 0 = .ok (v.toNat, b.length) ↔ b = form) ∧
    (∀ (v w : Int) (form other : Bytes), encodeInt v = .ok form → encodeInt w = .ok other →
      form <+: other → form = other ∧ v = w) ∧
    (∀ (data rest : Bytes) (offset v n : Nat), decodeAt data offset = .ok (v, n) →
      decodeAt (data.take (offset + n) ++ rest) offset = .ok (v, n)) := by
  have hlimit : limit = 2 ^ 64 := by decide
  refine ⟨fun v form => encodeInt_eq_ok_iff, fun data offset v n => ?_, fun v form hv => ?_,
    fun v w form other hv hw hprefix => ?_, fun data rest offset v n hread => ?_⟩
  · rw [decodeAt_eq_ok_iff]
    constructor
    -- What is read is below the bound, so it has a form.
    · rintro ⟨hlt, hn, htake⟩
      exact ⟨encode v, encodeInt_eq_ok_iff.mpr ⟨by omega, by omega, rfl⟩, hn, htake⟩
    · rintro ⟨form, hform, hn, htake⟩
      obtain ⟨-, hlt, rfl⟩ := encodeInt_eq_ok_iff.mp hform
      exact ⟨by omega, hn, htake⟩
  · obtain ⟨-, hlt, rfl⟩ := encodeInt_eq_ok_iff.mp hv
    have hlt : v.toNat < limit := by omega
    have hpos : 1 ≤ (encode v.toNat).length := List.length_pos_iff.mpr (encode_ne_nil _)
    -- Ten base-128 digits are more than 64 binary ones.
    refine ⟨hpos, length_encode_le (Nat.lt_of_lt_of_le hlt (by decide)), fun b => ?_⟩
    rw [decodeAt_eq_ok_iff, List.drop_zero, List.take_length]
    constructor
    · exact fun h => h.2.2
    · rintro rfl
      exact ⟨hlt, rfl, rfl⟩
  · obtain ⟨hv0, -, rfl⟩ := encodeInt_eq_ok_iff.mp hv
    obtain ⟨hw0, -, rfl⟩ := encodeInt_eq_ok_iff.mp hw
    obtain ⟨rest, hrest⟩ := hprefix
    -- Forms with bytes behind them determine their integers.
    have hsame := (encode_append_inj (hrest.trans (List.append_nil _).symm)).1
    exact ⟨congrArg encode hsame, by omega⟩
  · obtain ⟨hlt, hn, htake⟩ := decodeAt_eq_ok_iff.mp hread
    refine decodeAt_eq_ok_iff.mpr ⟨hlt, hn, ?_⟩
    -- The form lies within the bytes that are kept.
    have hkept : (data.take (offset + n)).drop offset = encode v := by
      rw [List.drop_take, Nat.add_sub_cancel_left, htake]
    have hoffset : offset ≤ (data.take (offset + n)).length := by
      have hlength := congrArg List.length hkept
      have hpos : 0 < (encode v).length := List.length_pos_iff.mpr (encode_ne_nil v)
      rw [List.length_drop] at hlength
      omega
    rw [List.drop_append_of_le_length hoffset, hkept, hn]
    exact List.take_left' rfl

/-- The integer 300 is read behind another byte and in front of one. -/
theorem decodeAt_inverts_encode_300 :
    encodeInt 300 = .ok [0xac, 0x02] ∧ decodeAt [0xff, 0xac, 0x02, 0x07] 1 = .ok (300, 2) ∧
      decodeAt [0xff, 0xac, 0x02, 0x09] 1 = .ok (300, 2) := by
  obtain ⟨hencode, hdecode, -, -, hrest⟩ := decodeAt_inverts_encode
  have hform : encode 300 = [0xac, 0x02] := by
    rw [encode_of_le (by decide), encode_of_lt (by decide)]
    rfl
  have h300 := (hencode 300 [0xac, 0x02]).mpr ⟨by decide, by decide, hform.symm⟩
  have hread := (hdecode [0xff, 0xac, 0x02, 0x07] 1 300 2).mpr ⟨_, h300, rfl, rfl⟩
  exact ⟨h300, hread, hrest _ [0x09] _ _ _ hread⟩

end PeerIdentity.Varint
