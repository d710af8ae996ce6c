import PeerIdentity.Proofs.Keccak

/-!
# SHAKE on natural numbers

The output of SHAKE256 has the length that is asked for. Messages and outputs as numbers in base
256 are those of a sponge on numbers, which the kernel evaluates.

* `length_block`, `length_squeeze`, `length_shake256`: lengths of outputs;
* `Sponge.absorbNat`, `Sponge.squeezeNat`: the sponge on numbers;
* `Sponge.toNat_absorb`, `Sponge.toNatLE_squeeze`: it is the sponge on byte strings;
* `shake256Nat`, `toNatLE_shake256`: SHAKE256 on numbers.
-/

namespace PeerIdentity

namespace Sponge

open Keccak

variable {sponge : Sponge}

/-! ## Lengths -/

/-- A block has as many bytes as the sponge gives at once. -/
theorem length_block (h : sponge.rate ≤ 200) (s : State) :
    (sponge.block s).length = sponge.rate := by
  rw [block, List.length_take, State.length_toBytes, Nat.min_eq_left h]

/-- Each step of squeezing gives a block. -/
theorem length_squeeze (h : sponge.rate ≤ 200) (count : Nat) (s : State) :
    (sponge.squeeze count s).length = count * sponge.rate := by
  induction count generalizing s with
  | zero => simp [squeeze]
  | succ count ih =>
    rw [squeeze, List.length_append, length_block h, ih, Nat.add_one_mul, Nat.add_comm]

/-! ## Absorbing -/

/-- The state after the next `count` blocks of a number of blocks. -/
def absorbBlocks (sponge : Sponge) : (count n state : Nat) → Nat
  | 0, _, state => state
  | count + 1, n, state =>
    let block := NatState.ofNat (Nat.mod n (Nat.pow 256 sponge.rate))
    strict ((NatState.ofNat state).xor block).permute fun state =>
      strict (Nat.shiftRight n (8 * sponge.rate)) fun n => absorbBlocks sponge count n state

/-- The number of the bytes that complete a message of `length` bytes. -/
def paddingNat (sponge : Sponge) (length : Nat) : Nat :=
  0x1f + Nat.shiftLeft 0x80 (8 * (sponge.rate - length % sponge.rate - 1))

/-- The state after a message of `length` bytes with the number `n`. -/
def absorbNat (sponge : Sponge) (length n : Nat) : Nat :=
  sponge.absorbBlocks (length / sponge.rate + 1)
    (n + Nat.shiftLeft (sponge.paddingNat length) (8 * length)) 0

/-- Absorbing the number of a message absorbs the blocks of the message. -/
theorem absorbBlocks_toNat (count : Nat) (b : Bytes) (s : State) :
    sponge.absorbBlocks count (Bytes.toNatLE b) s.toNats.toNat =
      ((Bytes.blocks sponge.rate count b).foldl
        (fun s block => (s.xor (State.ofBytes block)).permute) s).toNats.toNat := by
  induction count generalizing b s with
  | zero => rfl
  | succ count ih =>
    -- The next block is a remainder of the number, and the blocks behind it are a quotient.
    have hblock : NatState.ofNat (Nat.mod (Bytes.toNatLE b) (Nat.pow 256 sponge.rate)) =
        (State.ofBytes (b.take sponge.rate)).toNats := by
      rw [State.toNats_ofBytes, Bytes.toNatLE_take]
      rfl
    have hrest : Nat.shiftRight (Bytes.toNatLE b) (8 * sponge.rate) =
        Bytes.toNatLE (b.drop sponge.rate) := by
      rw [Bytes.toNatLE_drop, ← Bytes.shiftRight_bytes]
      rfl
    rw [absorbBlocks, Bytes.blocks, List.foldl_cons, ← ih]
    simp only [strict_eq, hblock, hrest, NatState.ofNat_toNat, ← State.toNats_xor,
      NatState.permute_toNats]

theorem toNatLE_replicate_zero (count : Nat) : Bytes.toNatLE (List.replicate count 0) = 0 := by
  induction count with
  | zero => rfl
  | succ count ih => rw [List.replicate_succ, Bytes.toNatLE, ih]; rfl

/-- The padding is the number that is computed for it. -/
theorem toNatLE_padding (length : Nat) :
    Bytes.toNatLE (sponge.padding length) = sponge.paddingNat length := by
  rw [padding, paddingNat]
  split
  -- The first byte of the padding is also its last one if only one byte is missing.
  next h => rw [h]; rfl
  next h => rw [h]; rfl
  next k h =>
    have hlast : Bytes.toNatLE [0x80] = 0x80 := by decide
    have hfirst : UInt8.toNat 0x1f = 0x1f := by decide
    have hshift : Nat.shiftLeft 0x80 (8 * (k + 1)) = 0x80 * 256 ^ (k + 1) :=
      Bytes.shiftLeft_bytes 0x80 (k + 1)
    rw [h, List.cons_append, Bytes.toNatLE, Bytes.toNatLE_append, toNatLE_replicate_zero,
      List.length_replicate, hlast, hfirst, Nat.succ_sub_one, hshift]
    ring

/-- The padding fills the last block, of which there is always one more. -/
theorem length_padding (h : 0 < sponge.rate) (length : Nat) :
    length + (sponge.padding length).length = (length / sponge.rate + 1) * sponge.rate := by
  have hmod := Nat.mod_lt length h
  have hdiv := Nat.div_add_mod' length sponge.rate
  have hpadding : (sponge.padding length).length = sponge.rate - length % sponge.rate := by
    rw [padding]
    split
    next hzero => omega
    next hone => rw [hone]; rfl
    next k hk => rw [hk]; simp
  rw [hpadding, Nat.add_one_mul]
  omega

/-- The state after a message, as a number. -/
theorem toNat_absorb (h : 0 < sponge.rate) (message : Bytes) :
    (sponge.absorb message).toNats.toNat =
      sponge.absorbNat message.length (Bytes.toNatLE message) := by
  have hcount : (message ++ sponge.padding message.length).length / sponge.rate =
      message.length / sponge.rate + 1 := by
    rw [List.length_append, length_padding h, Nat.mul_div_cancel _ h]
  have hzero : State.zero.toNats.toNat = 0 := by
    rw [State.zero, State.toNats_ofBytes]
    rfl
  have hnumber : Bytes.toNatLE (message ++ sponge.padding message.length) =
      Bytes.toNatLE message +
        Nat.shiftLeft (sponge.paddingNat message.length) (8 * message.length) := by
    rw [Bytes.toNatLE_append, toNatLE_padding, Nat.mul_comm, ← Bytes.shiftLeft_bytes]
    rfl
  rw [absorb, absorbNat]
  simp only [hcount]
  rw [← absorbBlocks_toNat, hnumber, hzero]

/-! ## Squeezing -/

/-- The number of the next `count` blocks. -/
def squeezeNat (sponge : Sponge) : (count state : Nat) → Nat
  | 0, _ => 0
  | count + 1, state =>
    strict state fun state =>
      Nat.add (Nat.mod state (Nat.pow 256 sponge.rate))
        (Nat.shiftLeft (squeezeNat sponge count (NatState.ofNat state).permute) (8 * sponge.rate))

/-- A block is the lower end of the number of the state. -/
theorem toNatLE_block (s : State) :
    Bytes.toNatLE (sponge.block s) = s.toNats.toNat % 256 ^ sponge.rate := by
  rw [block, Bytes.toNatLE_take, State.toNatLE_toBytes]

/-- The number of an output. -/
theorem toNatLE_squeeze (h : sponge.rate ≤ 200) (count : Nat) (s : State) :
    Bytes.toNatLE (sponge.squeeze count s) = sponge.squeezeNat count s.toNats.toNat := by
  induction count generalizing s with
  | zero => rfl
  | succ count ih =>
    rw [squeeze, Bytes.toNatLE_append, toNatLE_block, length_block h, ih, squeezeNat, strict_eq,
      NatState.ofNat_toNat, NatState.permute_toNats, Nat.mul_comm, ← Bytes.shiftLeft_bytes]
    rfl

end Sponge

/-! ## SHAKE256 -/

/-- As many bytes are given as are asked for. -/
@[simp]
theorem length_shake256 (message : Bytes) (n : Nat) : (shake256 message n).length = n := by
  have hrate : Sponge.shake256.rate = 136 := rfl
  rw [shake256, Sponge.output, List.length_take, Sponge.length_squeeze (by decide), hrate]
  omega

/-- The number of the first `count` bytes of SHAKE256 of a message of `length` bytes with the number
`n`. -/
def shake256Nat (length n count : Nat) : Nat :=
  Nat.mod (Sponge.shake256.squeezeNat ((count + 135) / 136) (Sponge.shake256.absorbNat length n))
    (Nat.pow 256 count)

/-- SHAKE256 on numbers. -/
theorem toNatLE_shake256 (message : Bytes) (count : Nat) :
    Bytes.toNatLE (shake256 message count) =
      shake256Nat message.length (Bytes.toNatLE message) count := by
  rw [shake256, Sponge.output, Bytes.toNatLE_take, Sponge.toNatLE_squeeze (by decide),
    Sponge.toNat_absorb (by decide)]
  rfl

end PeerIdentity
