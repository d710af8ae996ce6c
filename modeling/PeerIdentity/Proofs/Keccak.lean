import PeerIdentity.Hash.Shake
import PeerIdentity.Proofs.Bytes

/-!
# The permutation on natural numbers

The kernel computes with natural numbers directly and unfolds every operation on words. Here lanes
are natural numbers, so that a permutation of a given state is evaluated within the logic. The steps
share the terms of their lanes, and a shared term is computed once.

* `strict`: continues with the numeral of a number;
* `NatRow`, `NatState`: rows and states of numbers, with the step mappings;
* `NatState.permute`: the permutation, which writes the state as one number;
* `NatState.permute_toNats`: it is the permutation of the state.
-/

namespace PeerIdentity

variable {α : Type}

/-- Continues with the numeral of a number. The recursor evaluates the successor of the number and
takes the numeral before it. -/
def strict (n : Nat) (next : Nat → α) : α :=
  Nat.rec (next 0) (fun m _ => next m) (Nat.succ n)

/-- Continuing with the numeral of a number is continuing with the number. -/
@[simp]
theorem strict_eq (n : Nat) (next : Nat → α) : strict n next = next n := by
  cases n with
  | zero => rfl
  | succ n => rfl

namespace Keccak

/-! ## Rows and states of numbers -/

/-- A row whose lanes are numbers. -/
structure NatRow where
  (a b c d e : Nat)

/-- A state whose lanes are numbers. -/
structure NatState where
  (r0 r1 r2 r3 r4 : NatRow)

/-- The numbers of the lanes of a row. -/
def Row.toNats (r : Row) : NatRow :=
  ⟨r.a.toNat, r.b.toNat, r.c.toNat, r.d.toNat, r.e.toNat⟩

/-- The numbers of the lanes of a state. -/
def State.toNats (s : State) : NatState :=
  ⟨s.r0.toNats, s.r1.toNats, s.r2.toNats, s.r3.toNats, s.r4.toNats⟩

/-! ## The step mappings -/

-- Operations are given by their names, which the kernel computes without unfolding an instance.

/-- Rotation of a lane towards the high end. -/
def rotateNat (x n : Nat) : Nat :=
  Nat.lor (Nat.mod (Nat.shiftLeft x n) 0x10000000000000000) (Nat.shiftRight x (Nat.sub 64 n))

/-- A lane plus the product of the next two, the first of them inverted. -/
def chiNat (x y z : Nat) : Nat :=
  Nat.xor x (Nat.land (Nat.sub 0xffffffffffffffff y) z)

namespace NatRow

/-- The exclusive sum of two rows. -/
def xor (r s : NatRow) : NatRow :=
  ⟨Nat.xor r.a s.a, Nat.xor r.b s.b, Nat.xor r.c s.c, Nat.xor r.d s.d, Nat.xor r.e s.e⟩

/-- The parities of the two neighbouring columns of each column. -/
def neighbours (p : NatRow) : NatRow :=
  ⟨Nat.xor p.e (rotateNat p.b 1), Nat.xor p.a (rotateNat p.c 1), Nat.xor p.b (rotateNat p.d 1),
    Nat.xor p.c (rotateNat p.e 1), Nat.xor p.d (rotateNat p.a 1)⟩

/-- The step `χ` on a row. -/
def chi (r : NatRow) : NatRow :=
  ⟨chiNat r.a r.b r.c, chiNat r.b r.c r.d, chiNat r.c r.d r.e, chiNat r.d r.e r.a,
    chiNat r.e r.a r.b⟩

end NatRow

namespace NatState

/-- The exclusive sum of two states. -/
def xor (s t : NatState) : NatState :=
  ⟨s.r0.xor t.r0, s.r1.xor t.r1, s.r2.xor t.r2, s.r3.xor t.r3, s.r4.xor t.r4⟩

/-- The parities of the columns. -/
def parities (s : NatState) : NatRow :=
  (((s.r0.xor s.r1).xor s.r2).xor s.r3).xor s.r4

/-- Adds a row to each row. -/
def addRow (s : NatState) (d : NatRow) : NatState :=
  ⟨s.r0.xor d, s.r1.xor d, s.r2.xor d, s.r3.xor d, s.r4.xor d⟩

/-- The step `ρ`. -/
def rho (s : NatState) : NatState :=
  ⟨⟨s.r0.a, rotateNat s.r0.b 1, rotateNat s.r0.c 62, rotateNat s.r0.d 28, rotateNat s.r0.e 27⟩,
    ⟨rotateNat s.r1.a 36, rotateNat s.r1.b 44, rotateNat s.r1.c 6, rotateNat s.r1.d 55,
      rotateNat s.r1.e 20⟩,
    ⟨rotateNat s.r2.a 3, rotateNat s.r2.b 10, rotateNat s.r2.c 43, rotateNat s.r2.d 25,
      rotateNat s.r2.e 39⟩,
    ⟨rotateNat s.r3.a 41, rotateNat s.r3.b 45, rotateNat s.r3.c 15, rotateNat s.r3.d 21,
      rotateNat s.r3.e 8⟩,
    ⟨rotateNat s.r4.a 18, rotateNat s.r4.b 2, rotateNat s.r4.c 61, rotateNat s.r4.d 56,
      rotateNat s.r4.e 14⟩⟩

/-- The step `π`. -/
def pi (s : NatState) : NatState :=
  ⟨⟨s.r0.a, s.r1.b, s.r2.c, s.r3.d, s.r4.e⟩,
    ⟨s.r0.d, s.r1.e, s.r2.a, s.r3.b, s.r4.c⟩,
    ⟨s.r0.b, s.r1.c, s.r2.d, s.r3.e, s.r4.a⟩,
    ⟨s.r0.e, s.r1.a, s.r2.b, s.r3.c, s.r4.d⟩,
    ⟨s.r0.c, s.r1.d, s.r2.e, s.r3.a, s.r4.b⟩⟩

/-- The steps `χ` and `ι`. -/
def chi (t : NatState) (constant : Nat) : NatState :=
  ⟨{ t.r0.chi with a := Nat.xor t.r0.chi.a constant }, t.r1.chi, t.r2.chi, t.r3.chi, t.r4.chi⟩

/-- One round. -/
def round (s : NatState) (constant : Nat) : NatState :=
  (s.addRow s.parities.neighbours).rho.pi.chi constant

end NatState

/-! ## Words and numbers -/

/-- Lanes are rotated as numbers. -/
theorem toNat_rotate {x n : UInt64} (hpos : 0 < n.toNat) (hlt : n.toNat < 64) :
    (rotate x n).toNat = rotateNat x.toNat n.toNat := by
  have hsub : (64 - n).toNat = 64 - n.toNat :=
    UInt64.toNat_sub_of_le 64 n (UInt64.le_iff_toNat_le.mpr hlt.le)
  have hback : (64 - n.toNat) % 64 = 64 - n.toNat := Nat.mod_eq_of_lt (by omega)
  rw [rotate, UInt64.toNat_or, UInt64.toNat_shiftLeft, UInt64.toNat_shiftRight, hsub, hback,
    Nat.mod_eq_of_lt hlt]
  rfl

/-- Lanes are mixed by `χ` as numbers. -/
theorem toNat_chi (x y z : UInt64) :
    (x ^^^ (~~~y &&& z)).toNat = chiNat x.toNat y.toNat z.toNat := by
  rw [UInt64.toNat_xor, UInt64.toNat_and, UInt64.toNat_not]
  rfl

theorem Row.toNats_xor (r s : Row) : (r.xor s).toNats = r.toNats.xor s.toNats := by
  simp only [Row.xor, Row.toNats, UInt64.toNat_xor]
  rfl

theorem Row.toNats_chi (r : Row) : r.chi.toNats = r.toNats.chi := by
  simp only [Row.chi, Row.toNats, toNat_chi]
  rfl

theorem State.toNats_xor (s t : State) : (s.xor t).toNats = s.toNats.xor t.toNats := by
  simp only [State.xor, State.toNats, Row.toNats_xor]
  rfl

/-- The step `θ` adds the parities of the neighbouring columns, on numbers, too. -/
theorem State.toNats_theta (s : State) :
    s.theta.toNats = s.toNats.addRow s.toNats.parities.neighbours := by
  have hrotate : ∀ x, (rotate x 1).toNat = rotateNat x.toNat 1 :=
    fun x => toNat_rotate (by decide) (by decide)
  simp only [State.theta, State.toNats, Row.toNats, Row.xor, UInt64.toNat_xor, hrotate]
  rfl

/-- The step `ρ` is the same on numbers. -/
theorem State.toNats_rho (s : State) : s.rho.toNats = s.toNats.rho := by
  simp (disch := decide) only [State.rho, State.toNats, Row.toNats, toNat_rotate]
  rfl

theorem State.toNats_pi (s : State) : s.pi.toNats = s.toNats.pi :=
  rfl

/-- The step `ι` changes the first lane only. -/
theorem Row.toNats_add (r : Row) (constant : UInt64) :
    Row.toNats { r with a := r.a ^^^ constant } =
      { r.toNats with a := Nat.xor r.toNats.a constant.toNat } := by
  rw [Row.toNats, UInt64.toNat_xor]
  rfl

/-- A round on numbers is a round on lanes. -/
theorem NatState.round_toNats (s : State) (constant : UInt64) :
    s.toNats.round constant.toNat = (s.round constant).toNats := by
  rw [NatState.round, ← State.toNats_theta, ← State.toNats_rho, ← State.toNats_pi]
  simp only [State.round, State.toNats, Row.toNats_add, Row.toNats_chi, NatState.chi]

/-! ## States as one number -/

/-- The number whose digits are the lanes of a row. -/
def NatRow.toNat (r : NatRow) : Nat :=
  Nat.add r.a (Nat.shiftLeft (Nat.add r.b (Nat.shiftLeft (Nat.add r.c (Nat.shiftLeft
    (Nat.add r.d (Nat.shiftLeft r.e 64)) 64)) 64)) 64)

/-- The number whose digits are the lanes of a state. -/
def NatState.toNat (s : NatState) : Nat :=
  Nat.add s.r0.toNat (Nat.shiftLeft (Nat.add s.r1.toNat (Nat.shiftLeft (Nat.add s.r2.toNat
    (Nat.shiftLeft (Nat.add s.r3.toNat (Nat.shiftLeft s.r4.toNat 320)) 320)) 320)) 320)

/-- The lane that starts at a bit. -/
def laneNat (n start : Nat) : Nat :=
  Nat.mod (Nat.shiftRight n start) 0x10000000000000000

/-- The row that starts at a bit. -/
def NatRow.ofNat (n start : Nat) : NatRow :=
  ⟨laneNat n start, laneNat n (Nat.add start 64), laneNat n (Nat.add start 128),
    laneNat n (Nat.add start 192), laneNat n (Nat.add start 256)⟩

/-- The state of the lowest 1600 bits. -/
def NatState.ofNat (n : Nat) : NatState :=
  ⟨NatRow.ofNat n 0, NatRow.ofNat n 320, NatRow.ofNat n 640, NatRow.ofNat n 960,
    NatRow.ofNat n 1280⟩

/-- A lane is a part of the number of all bytes. -/
theorem toNat_laneOf_drop (b : Bytes) (count : Nat) :
    (laneOf (b.drop count)).toNat = laneNat (Bytes.toNatLE b) (8 * count) := by
  have hword : (256 : Nat) ^ 8 = 2 ^ 64 := by norm_num
  rw [laneOf, UInt64.toNat_ofNat', Bytes.toNatLE_take, Bytes.toNatLE_drop, hword, Nat.mod_mod,
    ← Bytes.shiftRight_bytes]
  rfl

/-- A row is a part of the number of all bytes. -/
theorem Row.toNats_ofBytes_drop (b : Bytes) (count : Nat) :
    (Row.ofBytes (b.drop count)).toNats = NatRow.ofNat (Bytes.toNatLE b) (8 * count) := by
  simp only [Row.ofBytes, Row.toNats, List.drop_drop, toNat_laneOf_drop, Nat.mul_add]
  rfl

/-- A state is the number of its bytes, cut into lanes. -/
theorem State.toNats_ofBytes (b : Bytes) :
    (State.ofBytes b).toNats = NatState.ofNat (Bytes.toNatLE b) := by
  have hfirst := Row.toNats_ofBytes_drop b 0
  rw [List.drop_zero] at hfirst
  simp only [State.ofBytes, State.toNats, hfirst, Row.toNats_ofBytes_drop]
  rfl

@[simp]
theorem Row.length_toBytes (r : Row) : r.toBytes.length = 40 := by
  simp [Row.toBytes]

/-- A state has five rows of forty bytes. -/
@[simp]
theorem State.length_toBytes (s : State) : s.toBytes.length = 200 := by
  simp [State.toBytes]

theorem toNatLE_lane (x : UInt64) : Bytes.toNatLE (Bytes.ofNatLE 8 x.toNat) = x.toNat :=
  Bytes.toNatLE_ofNatLE x.toNat_lt

/-- The bytes of a row have the number that its lanes make. -/
theorem Row.toNatLE_toBytes (r : Row) : Bytes.toNatLE r.toBytes = r.toNats.toNat := by
  simp only [Row.toBytes, List.flatMap_cons, List.flatMap_nil, Bytes.toNatLE_append, toNatLE_lane,
    Bytes.length_ofNatLE, Bytes.toNatLE]
  show _ = r.a.toNat + (r.b.toNat + (r.c.toNat + (r.d.toNat +
    r.e.toNat <<< 64) <<< 64) <<< 64) <<< 64
  simp only [Nat.shiftLeft_eq]
  ring

/-- The bytes of a state have the number that its lanes make. -/
theorem State.toNatLE_toBytes (s : State) : Bytes.toNatLE s.toBytes = s.toNats.toNat := by
  simp only [State.toBytes, List.flatMap_cons, List.flatMap_nil, Bytes.toNatLE_append,
    Row.toNatLE_toBytes, Row.length_toBytes, Bytes.toNatLE]
  show _ = s.r0.toNats.toNat + (s.r1.toNats.toNat + (s.r2.toNats.toNat + (s.r3.toNats.toNat +
    s.r4.toNats.toNat <<< 320) <<< 320) <<< 320) <<< 320
  -- Shifts by 320 bits are powers of 256, as the bytes have them, and not powers of 2.
  have hrow : ∀ n, n <<< 320 = n * 256 ^ 40 := fun n => Bytes.shiftLeft_bytes n 40
  simp only [hrow]
  ring

/-! ## States read back -/

/-- A lane is read back from its bytes, whatever follows. -/
theorem laneOf_append (x : UInt64) (rest : Bytes) :
    laneOf (Bytes.ofNatLE 8 x.toNat ++ rest) = x := by
  rw [laneOf, List.take_left' (Bytes.length_ofNatLE 8 _), toNatLE_lane, UInt64.ofNat_toNat]

/-- A row is read back from its bytes, whatever follows. -/
theorem Row.ofBytes_append (r : Row) (rest : Bytes) : Row.ofBytes (r.toBytes ++ rest) = r := by
  have hdrop : ∀ (x : UInt64) (b : Bytes) (count : Nat),
      (Bytes.ofNatLE 8 x.toNat ++ b).drop (count + 8) = b.drop count := by
    intro x b count
    rw [Nat.add_comm, ← List.drop_drop, List.drop_left' (Bytes.length_ofNatLE 8 _)]
  have h0 : ∀ (x : UInt64) (b : Bytes), (Bytes.ofNatLE 8 x.toNat ++ b).drop 8 = b :=
    fun x b => hdrop x b 0
  simp only [Row.toBytes, List.flatMap_cons, List.flatMap_nil, List.append_assoc, Row.ofBytes,
    laneOf_append, h0, hdrop _ _ 8, hdrop _ _ 16, hdrop _ _ 24]

/-- A state is read back from its bytes. -/
theorem State.ofBytes_toBytes (s : State) : State.ofBytes s.toBytes = s := by
  have hdrop : ∀ (r : Row) (b : Bytes) (count : Nat),
      (r.toBytes ++ b).drop (count + 40) = b.drop count := by
    intro r b count
    rw [Nat.add_comm, ← List.drop_drop, List.drop_left' r.length_toBytes]
  have h0 : ∀ (r : Row) (b : Bytes), (r.toBytes ++ b).drop 40 = b := fun r b => hdrop r b 0
  simp only [State.toBytes, List.flatMap_cons, List.flatMap_nil, State.ofBytes,
    Row.ofBytes_append, h0, hdrop _ _ 40, hdrop _ _ 80, hdrop _ _ 120]

/-- The lanes of a state are recovered from the number that they make. -/
theorem NatState.ofNat_toNat (s : State) : NatState.ofNat s.toNats.toNat = s.toNats := by
  rw [← State.toNatLE_toBytes, ← State.toNats_ofBytes, State.ofBytes_toBytes]

/-! ## The permutation -/

/-- The permuted state, as one number. -/
def NatState.permute (s : NatState) : Nat :=
  ((roundConstants.map UInt64.toNat).foldl NatState.round s).toNat

/-- The permutation of numbers is that of words. -/
theorem NatState.permute_toNats (s : State) : s.toNats.permute = s.permute.toNats.toNat := by
  rw [NatState.permute, List.foldl_map, List.foldl_hom State.toNats NatState.round_toNats,
    State.permute]

end Keccak

end PeerIdentity
