import PeerIdentity.Proofs.MlDsa.Packed
import PeerIdentity.Proofs.MlDsa.Sampling
import PeerIdentity.Proofs.Shake

/-!
# Sampling packed polynomials

The samplers on numbers: the candidates are cut out of the number of a block, and what is found is
packed at once.

* `uniformNat`, `uniformNat_eq`: uniform polynomials;
* `maskNat`, `maskNat_eq`: masks;
* `challengeNat`, `challengeNat_eq`: challenges.
-/

namespace PeerIdentity.MlDsa

open Keccak

/-! ## Uniform polynomials -/

/-- Packs up to `need` of the `count` candidates in a number, and what `more` adds to them. -/
def fillUniform : (count need n : Nat) → (more : Nat → Nat) → Nat
  | 0, need, _, more => more need
  | _ + 1, 0, _, _ => 0
  -- Three bytes are one candidate, without the top bit of the third.
  | count + 1, need + 1, n, more =>
    strict (Nat.mod n 0x800000) fun v => strict (Nat.shiftRight n 24) fun n =>
      cond (Nat.ble q v) (fillUniform count (need + 1) n more)
        (Nat.add v (Nat.shiftLeft (fillUniform count need n more) 256))

/-- The first `need` values of up to `blocks` blocks, packed. -/
def uniformFrom : (blocks need state : Nat) → Nat
  | 0, _, _ => 0
  | blocks + 1, need, state =>
    strict state fun state => fillUniform 56 need state fun need =>
      uniformFrom blocks need (NatState.ofNat state).permute

/-- The uniform polynomial of a seed of `length` bytes with the number `n`, packed. -/
def uniformNat (length n : Nat) : Nat :=
  uniformFrom 64 256 (Sponge.shake128.absorbNat length n)

/-- Nothing is drawn where nothing is needed. -/
theorem uniformFrom_zero (blocks state : Nat) : uniformFrom blocks 0 state = 0 := by
  cases blocks with
  | zero => rfl
  | succ blocks => rw [uniformFrom, strict_eq]; rfl

/-- Three bytes of a number are a candidate, without the top bit of the third. -/
theorem candidate_eq (x y z : UInt8) (n : Nat) :
    Nat.mod (x.toNat + 256 * (y.toNat + 256 * (z.toNat + 256 * n))) 0x800000 =
      x.toNat + 256 * y.toNat + 65536 * (z.toNat % 128) := by
  have hx := x.toNat_lt
  have hy := y.toNat_lt
  have hz := z.toNat_lt
  show (x.toNat + 256 * (y.toNat + 256 * (z.toNat + 256 * n))) % 0x800000 = _
  omega

/-- Three bytes at least start with three bytes. -/
theorem exists_candidate_bytes {count : Nat} {b : Bytes} (hb : b.length = 3 * count + 3) :
    ∃ x y z rest, b = x :: y :: z :: rest ∧ rest.length = 3 * count := by
  obtain ⟨x, b, rfl⟩ := List.exists_cons_of_length_eq_add_one hb
  rw [List.length_cons, Nat.add_right_cancel_iff] at hb
  obtain ⟨y, b, rfl⟩ := List.exists_cons_of_length_eq_add_one hb
  rw [List.length_cons, Nat.add_right_cancel_iff] at hb
  obtain ⟨z, b, rfl⟩ := List.exists_cons_of_length_eq_add_one hb
  rw [List.length_cons, Nat.add_right_cancel_iff] at hb
  exact ⟨x, y, z, b, rfl, hb⟩

/-- One candidate. -/
theorem fillUniform_cons (count need : Nat) (x y z : UInt8) (b : Bytes) (more : Nat → Nat) :
    fillUniform (count + 1) (need + 1) (Bytes.toNatLE (x :: y :: z :: b)) more =
      if q ≤ x.toNat + 256 * y.toNat + 65536 * (z.toNat % 128) then
        fillUniform count (need + 1) (Bytes.toNatLE b) more
      else x.toNat + 256 * y.toNat + 65536 * (z.toNat % 128) +
        fillUniform count need (Bytes.toNatLE b) more <<< 256 := by
  have hvalue : Nat.mod (Bytes.toNatLE (x :: y :: z :: b)) 0x800000 =
      x.toNat + 256 * y.toNat + 65536 * (z.toNat % 128) :=
    candidate_eq x y z _
  have hrest : Nat.shiftRight (Bytes.toNatLE (x :: y :: z :: b)) 24 = Bytes.toNatLE b := by
    have hdrop := Bytes.toNatLE_drop (x :: y :: z :: b) 3
    rw [← Bytes.shiftRight_bytes] at hdrop
    exact hdrop.symm
  rw [fillUniform, strict_eq, strict_eq, hvalue, hrest, Bool.cond_eq_ite]
  simp only [Nat.ble_eq]
  rfl

/-- The candidates in a number of bytes are filled in like those in the bytes. -/
theorem fillUniform_eq {count : Nat} {b : Bytes} (hb : b.length = 3 * count) (rest : Bytes)
    (need : Nat) (more : Nat → Nat) (hmore : more 0 = 0) :
    fillUniform count need (Bytes.toNatLE (b ++ rest)) more =
      ofDigits 256 ((uniformCandidates b).take need) +
        more (need - ((uniformCandidates b).take need).length) <<<
          (256 * ((uniformCandidates b).take need).length) := by
  induction count generalizing b need with
  | zero =>
    obtain rfl : b = [] := List.length_eq_zero_iff.mp hb
    simp [fillUniform, uniformCandidates, ofDigits]
  | succ count ih =>
    cases need with
    | zero => simp [fillUniform, ofDigits, hmore]
    | succ need =>
      obtain ⟨x, y, z, b, rfl, hb'⟩ := exists_candidate_bytes hb
      rw [List.cons_append, List.cons_append, List.cons_append, fillUniform_cons,
        uniformCandidates]
      generalize x.toNat + 256 * y.toNat + 65536 * (z.toNat % 128) = v
      by_cases hlt : v < q
      · rw [if_neg (Nat.not_le.mpr hlt), if_pos hlt, List.take_succ_cons, ih hb', List.length_cons,
          Nat.add_sub_add_right, ofDigits]
        simp only [Nat.shiftLeft_eq]
        ring
      -- A candidate that is too big is skipped, and the number that is still needed stays.
      · rw [if_pos (Nat.not_lt.mp hlt), if_neg hlt, ih hb']

/-- What the sampler collects, packed. -/
theorem uniformFrom_eq (blocks need : Nat) (s : State) :
    uniformFrom blocks need s.toNats.toNat =
      ofDigits 256 (collect Sponge.shake128 uniformCandidates blocks need s) := by
  induction blocks generalizing need s with
  | zero => rw [uniformFrom, collect, ofDigits_replicate_zero]
  | succ blocks ih =>
    -- The candidates are in the first 168 bytes of the state, and the other bytes stay above them.
    have hblock : (Sponge.shake128.block s).length = 3 * 56 := Sponge.length_block (by decide) s
    have hsplit : Sponge.shake128.block s ++ s.toBytes.drop 168 = s.toBytes :=
      List.take_append_drop 168 s.toBytes
    have hfill := fillUniform_eq hblock (s.toBytes.drop 168) need
      (fun need => uniformFrom blocks need (NatState.ofNat s.toNats.toNat).permute)
      (uniformFrom_zero _ _)
    rw [hsplit, State.toNatLE_toBytes, NatState.ofNat_toNat, NatState.permute_toNats] at hfill
    rw [uniformFrom, strict_eq, NatState.ofNat_toNat, NatState.permute_toNats, hfill, collect]
    split
    next hdone => rw [hdone, Nat.sub_self, uniformFrom_zero, Nat.zero_shiftLeft, Nat.add_zero]
    next => rw [ofDigits_append, ih]

/-- A uniform polynomial, packed. -/
theorem uniformNat_eq (seed : Bytes) :
    uniformNat seed.length (Bytes.toNatLE seed) = ofDigits 256 (uniform seed) := by
  rw [uniformNat, ← Sponge.toNat_absorb (by decide), uniformFrom_eq, uniform]

/-! ## Masks -/

/-- The mask of a seed of `length` bytes with the number `n`, packed. -/
def maskNat (length n : Nat) : Nat :=
  slots (fun x => subMod gamma1 x q) 20 256 8 (shake256Nat length n 640)

/-- A mask, packed. -/
theorem maskNat_eq (seed : Bytes) :
    maskNat seed.length (Bytes.toNatLE seed) = ofDigits 256 (mask seed) := by
  have hlt : Bytes.toNatLE (shake256 seed 640) < 2 ^ (20 * 256) := by
    have hbits : 8 * (shake256 seed 640).length = 20 * 256 := by rw [length_shake256]
    exact hbits ▸ Bytes.toNatLE_lt_two_pow _
  have hlength : (digits 20 256 (Bytes.toNatLE (shake256 seed 640))).length = 2 ^ 8 :=
    length_digits _ _ _
  have hslots := slots_ofDigits (fun x => subMod gamma1 x q) 20 256 hlength digits_lt
  rw [ofDigits_digits hlt] at hslots
  rw [maskNat, ← toNatLE_shake256, mask, reflectFrom, unpack]
  exact hslots

/-! ## Challenges -/

/-- The digit of 256 bits at a position. -/
def slot (n i : Nat) : Nat :=
  Nat.mod (Nat.shiftRight n (256 * i)) (Nat.pow 2 256)

/-- Replaces the digit of 256 bits at a position. -/
def setSlot (n i x : Nat) : Nat :=
  Nat.add (Nat.mod n (Nat.pow 2 (256 * i)))
    (Nat.shiftLeft (Nat.add x (Nat.shiftLeft (Nat.shiftRight n (256 * (i + 1))) 256)) (256 * i))

/-- A digit of a packed list is replaced like the element of the list. -/
theorem setSlot_eq {ds : List Nat} (h : ∀ d ∈ ds, d < 2 ^ 256) {i : Nat} (hi : i < ds.length)
    (x : Nat) : setSlot (ofDigits 256 ds) i x = ofDigits 256 (ds.set i x) := by
  have htake : ∀ count, ∀ d ∈ ds.take count, d < 2 ^ 256 :=
    fun _ d hd => h d (List.mem_of_mem_take hd)
  have hlow := ofDigits_append_mod (ds.drop i) (htake i)
  have hhigh := ofDigits_append_shiftRight (ds.drop (i + 1)) (htake (i + 1))
  rw [List.take_append_drop, List.length_take, Nat.min_eq_left hi.le] at hlow
  rw [List.take_append_drop, List.length_take, Nat.min_eq_left hi] at hhigh
  rw [List.set_eq_take_append_cons_drop, if_pos hi, ofDigits_append, List.length_take,
    Nat.min_eq_left hi.le, ofDigits, ← hlow, ← hhigh]
  rfl

/-- A digit of a packed list is the element of the list. -/
theorem slot_eq {ds : List Nat} (h : ∀ d ∈ ds, d < 2 ^ 256) (i : Nat) :
    slot (ofDigits 256 ds) i = ds.getD i 0 :=
  ofDigits_digit h i

/-- Puts signs into a packed polynomial for each of the `count` bytes of a number. -/
def placeSignsNat : (count stream i signs c : Nat) → Nat
  | 0, _, _, _, c => c
  | count + 1, stream, i, signs, c =>
    strict (Nat.mod stream 256) fun j => strict (Nat.shiftRight stream 8) fun stream =>
      cond (Nat.ble 256 i) c (cond (Nat.ble j i)
        (strict (setSlot (setSlot c i (slot c j)) j (if signs % 2 = 1 then q - 1 else 1)) fun c =>
          placeSignsNat count stream (i + 1) (signs / 2) c)
        (placeSignsNat count stream i signs c))

/-- The challenge of a seed of `length` bytes with the number `n`, packed. -/
def challengeNat (length n : Nat) : Nat :=
  strict (Sponge.shake256.squeezeNat 8 (Sponge.shake256.absorbNat length n)) fun stream =>
    placeSignsNat 1080 (Nat.shiftRight stream 64) 196 (Nat.mod stream 0x10000000000000000) 0

/-- One byte of the stream. -/
theorem placeSignsNat_cons (x : UInt8) (b : Bytes) (i signs c : Nat) :
    placeSignsNat (x :: b).length (Bytes.toNatLE (x :: b)) i signs c =
      if 256 ≤ i then c
      else if x.toNat ≤ i then
        placeSignsNat b.length (Bytes.toNatLE b) (i + 1) (signs / 2)
          (setSlot (setSlot c i (slot c x.toNat)) x.toNat (if signs % 2 = 1 then q - 1 else 1))
      else placeSignsNat b.length (Bytes.toNatLE b) i signs c := by
  have hx := x.toNat_lt
  have hbyte : Nat.mod (Bytes.toNatLE (x :: b)) 256 = x.toNat := by
    show (x.toNat + 256 * Bytes.toNatLE b) % 256 = x.toNat
    omega
  have hrest : Nat.shiftRight (Bytes.toNatLE (x :: b)) 8 = Bytes.toNatLE b := by
    show (x.toNat + 256 * Bytes.toNatLE b) >>> 8 = Bytes.toNatLE b
    rw [Nat.shiftRight_eq_div_pow]
    omega
  rw [List.length_cons, placeSignsNat, strict_eq, strict_eq, strict_eq, hbyte, hrest]
  simp only [Bool.cond_eq_ite, Nat.ble_eq]

/-- A polynomial stays reduced when a reduced coefficient is put into it. -/
theorem isReduced_set {c : Poly} (hc : c.IsReduced 256) (i : Nat) {x : Nat} (hx : x < q) :
    Poly.IsReduced 256 (c.set i x) := by
  refine ⟨by rw [List.length_set, hc.length_eq], fun y hy => ?_⟩
  rcases List.mem_or_eq_of_mem_set hy with hy | rfl
  · exact hc.lt y hy
  · exact hx

/-- A coefficient of a reduced polynomial is below `q`, also beyond the end. -/
theorem getD_lt {c : Poly} (hc : c.IsReduced 256) (i : Nat) : c.getD i 0 < q := by
  rcases Nat.lt_or_ge i c.length with hi | hi
  · rw [List.getD_eq_getElem c 0 hi]
    exact hc.lt _ (List.getElem_mem hi)
  · rw [List.getD_eq_default c 0 hi]
    exact q_pos

/-- A coefficient moves to another position, and another one takes its place. -/
theorem setSlot_setSlot_eq {c : Poly} (hc : c.IsReduced 256) {i j : Nat} (hi : i < 256)
    (hj : j < 256) (x : Nat) :
    setSlot (setSlot (ofDigits 256 c) i (slot (ofDigits 256 c) j)) j x =
      ofDigits 256 ((c.set i (c.getD j 0)).set j x) := by
  have hwidth : ∀ {c : Poly}, c.IsReduced 256 → ∀ d ∈ c, d < 2 ^ 256 :=
    fun hc d hd => (hc.lt d hd).trans (by decide)
  have hmoved := isReduced_set hc i (getD_lt hc j)
  rw [slot_eq (hwidth hc), setSlot_eq (hwidth hc) (hc.length_eq ▸ hi),
    setSlot_eq (hwidth hmoved) (hmoved.length_eq ▸ hj)]

/-- The signs of a challenge are placed in its packed form as in the challenge. -/
theorem placeSignsNat_eq (b : Bytes) (i signs : Nat) {c : Poly} (hc : c.IsReduced 256) :
    placeSignsNat b.length (Bytes.toNatLE b) i signs (ofDigits 256 c) =
      ofDigits 256 (placeSigns b i signs c) := by
  induction b generalizing i signs c with
  | nil => rfl
  | cons x b ih =>
    rw [placeSignsNat_cons, placeSigns]
    by_cases hi : 256 ≤ i
    · rw [if_pos hi, if_pos hi]
    rw [if_neg hi, if_neg hi]
    by_cases hj : x.toNat ≤ i
    · have hsign : (if signs % 2 = 1 then q - 1 else 1) < q := by
        split <;> decide
      have hmoved := isReduced_set hc i (getD_lt hc x.toNat)
      rw [if_pos hj, if_pos hj, setSlot_setSlot_eq hc (by omega) (by omega),
        ih _ _ (isReduced_set hmoved _ hsign)]
    · rw [if_neg hj, if_neg hj, ih _ _ hc]

/-- A challenge, packed. -/
theorem challengeNat_eq (seed : Bytes) :
    challengeNat seed.length (Bytes.toNatLE seed) = ofDigits 256 (challenge seed) := by
  have hzero : 0 = ofDigits 256 Poly.zero := (ofDigits_replicate_zero 256 256).symm
  have hrest : ∀ stream : Bytes, Nat.shiftRight (Bytes.toNatLE stream) 64 =
      Bytes.toNatLE (stream.drop 8) := by
    intro stream
    rw [Bytes.toNatLE_drop, ← Bytes.shiftRight_bytes]
    rfl
  have hsigns : ∀ stream : Bytes, Nat.mod (Bytes.toNatLE stream) 0x10000000000000000 =
      Bytes.toNatLE (stream.take 8) := by
    intro stream
    rw [Bytes.toNatLE_take]
    rfl
  have hlength :
      ((Sponge.shake256.squeeze 8 (Sponge.shake256.absorb seed)).drop 8).length = 1080 := by
    rw [List.length_drop, Sponge.length_squeeze (by decide)]
    rfl
  rw [challengeNat, strict_eq, ← Sponge.toNat_absorb (by decide),
    ← Sponge.toNatLE_squeeze (by decide), hrest, hsigns, hzero, challenge, ← hlength]
  exact placeSignsNat_eq _ _ _ Poly.isReduced_zero

end PeerIdentity.MlDsa
