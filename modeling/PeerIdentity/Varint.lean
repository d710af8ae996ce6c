import PeerIdentity.Bytes

/-!
# Variable-length integers

An integer below `2 ^ 64` is written in base 128, least significant digit first, one digit for a
byte. The high bit is set on every byte but the last. Only the shortest form is read, so every
integer has one form.

* `Varint.encode`: the form of an integer;
* `Varint.read`: reads an integer and returns it with the bytes after it;
* `Varint.decodeAt`: reads an integer at a position and returns it with the number of its bytes.
-/

namespace PeerIdentity.Varint

/-- The bound of the integers that have a form, `2 ^ 64`. -/
def limit : Nat :=
  0x10000000000000000

/-! ## Writing -/

/-- The base-128 digits of an integer, least significant first, with the high bit on all but the
last. -/
def encode (n : Nat) : Bytes :=
  if n < 128 then [UInt8.ofNat n] else UInt8.ofNat (n % 128 + 128) :: encode (n / 128)
termination_by n
decreasing_by omega

/-- Why an integer has no form. -/
inductive RangeFault where
  | negative
  | tooLarge
  deriving DecidableEq, Repr

/-- The message for an integer that has no form. -/
def RangeFault.message : RangeFault → String
  | negative => "Varint must be non-negative"
  | tooLarge => "Varint must fit in 64 bits"

/-- The form of an integer from 0 up to below the bound. -/
def encodeInt (v : Int) : Except RangeFault Bytes :=
  if v < 0 then .error .negative
  else if limit ≤ v then .error .tooLarge
  else .ok (encode v.toNat)

/-! ## Reading -/

/-- Why bytes do not start with the form of an integer. -/
inductive Fault where
  /-- The bytes end before a byte without the high bit. -/
  | truncated
  /-- Ten bytes have the high bit. -/
  | tooLong
  /-- The last of several digits is zero. -/
  | nonMinimal
  /-- The integer is not below the bound. -/
  | exceeds
  deriving DecidableEq, Repr

/-- The message for bytes that do not start with the form of an integer. -/
def Fault.message : Fault → String
  | truncated => "Truncated varint"
  | tooLong => "Varint too long"
  | nonMinimal => "Non-minimal varint"
  | exceeds => "Varint exceeds 64 bits"

/-- The bytes up to the first without the high bit, among the `count` first bytes, and the bytes
after it. -/
def readGroups : (count : Nat) → Bytes → Except Fault (Bytes × Bytes)
  | 0, _ => .error .tooLong
  | _ + 1, [] => .error .truncated
  | count + 1, x :: b =>
    if x < 128 then .ok ([x], b)
    else
      match readGroups count b with
      | .ok (groups, rest) => .ok (x :: groups, rest)
      | .error f => .error f

/-- The integer that bytes write in base 128, least significant digit first. -/
def value (groups : Bytes) : Nat :=
  groups.foldr (fun x n => x.toNat % 128 + 128 * n) 0

/-- The largest number of bytes of a form. -/
def maxLength : Nat :=
  10

/-- Reads an integer: the integer and the bytes after it. -/
def read (b : Bytes) : Except Fault (Nat × Bytes) :=
  match readGroups maxLength b with
  | .error f => .error f
  | .ok (groups, rest) =>
    if 1 < groups.length ∧ groups.getLast? = some 0 then .error .nonMinimal
    else if limit ≤ value groups then .error .exceeds
    else .ok (value groups, rest)

/-- Reads an integer at a position: the integer and the number of its bytes. -/
def decodeAt (data : Bytes) (offset : Nat) : Except Fault (Nat × Nat) :=
  (read (data.drop offset)).map fun (n, rest) => (n, data.length - offset - rest.length)

/-! ## Lengths -/

/-- The groups are the start of what is read, and there is at least one. -/
theorem eq_append_of_readGroups {count : Nat} {b groups rest : Bytes}
    (h : readGroups count b = .ok (groups, rest)) : b = groups ++ rest ∧ groups ≠ [] := by
  induction count generalizing b groups with
  | zero => simp [readGroups] at h
  | succ count ih =>
    cases b with
    | nil => simp [readGroups] at h
    | cons x b =>
      simp only [readGroups] at h
      split at h
      · simp only [Except.ok.injEq, Prod.mk.injEq] at h
        simp [← h.1, h.2]
      · split at h
        · rename_i gs r hg
          simp only [Except.ok.injEq, Prod.mk.injEq] at h
          obtain ⟨h, rfl⟩ := h
          simp [← h, (ih hg).1]
        · simp at h

/-- Reading an integer takes at least one byte. -/
theorem length_read {b rest : Bytes} {n : Nat} (h : read b = .ok (n, rest)) :
    rest.length < b.length := by
  unfold read at h
  split at h
  · simp at h
  · rename_i groups r hg
    have ⟨hb, hne⟩ := eq_append_of_readGroups hg
    have := List.length_pos_iff.2 hne
    split at h
    · simp at h
    · split at h
      · simp at h
      · simp only [Except.ok.injEq, Prod.mk.injEq] at h
        simp [hb, ← h.2]
        omega

end PeerIdentity.Varint
