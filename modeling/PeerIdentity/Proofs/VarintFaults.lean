import PeerIdentity.Proofs.Varint

/-!
# Bytes that start with no integer

The bytes of a form have the high bit, all but the last one. So the first ten bytes tell how an
attempt to read an integer ends, and it ends in one of five ways. If there are fewer than ten bytes
and all of them have the high bit, then they are cut off. If the first ten have it, then they are
too many. Otherwise a run of at most ten bytes ends in a byte without the high bit, and this last
byte decides: after other bytes it must not be zero, and as the tenth it must be below 2.

* `Varint.IsOpen`, `Varint.Shape`: bytes with the high bit, and the three ways in which bytes start;
* `Varint.read_of_isOpen_of_lt`, `Varint.read_of_isOpen_take`, `Varint.read_of_closed`: what is read
  in each of them;
* `Varint.read_eq_truncated_iff`: the bytes that are cut off are the beginnings of forms;
* `Varint.Refuses`: the message with which bytes are refused at a position;
* `Varint.refusals_classified`: each of the four messages, and what following bytes change.
-/

namespace PeerIdentity.Varint

/-! ## Runs -/

/-- All bytes have the high bit, so a form that starts with them has another byte. -/
def IsOpen (b : Bytes) : Prop :=
  ∀ x ∈ b, 128 ≤ x

variable {b run rest : Bytes} {last : UInt8} {count : Nat}

/-- The ways in which bytes start, as far as the first `count` of them tell. -/
inductive Shape (count : Nat) (b : Bytes) : Prop
  /-- There are fewer bytes, and each asks for another one. -/
  | cut (short : b.length < count) (isOpen : IsOpen b)
  /-- Each of the first `count` bytes asks for another one. -/
  | endless (long : count ≤ b.length) (isOpen : IsOpen (b.take count))
  /-- One of the first `count` bytes is the last of a run. -/
  | closed (run : Bytes) (last : UInt8) (rest : Bytes) (split : b = run ++ last :: rest)
    (isOpen : IsOpen run) (isLast : last < 128) (short : run.length < count)

/-- Any bytes either end within a number of bytes, or all of these mark that more follow. -/
theorem shape (count : Nat) (b : Bytes) : Shape count b := by
  induction count generalizing b with
  | zero => exact .endless (Nat.zero_le _) (by simp [IsOpen])
  | succ count ih =>
    cases b with
    | nil => exact .cut (Nat.succ_pos _) (by simp [IsOpen])
    | cons x b =>
      by_cases hx : x < 128
      · exact .closed [] x b rfl (by simp [IsOpen]) hx (Nat.succ_pos _)
      · have hx : 128 ≤ x := UInt8.not_lt.mp hx
        -- A byte with the high bit makes each shape one byte longer.
        cases ih b with
        | cut short isOpen =>
          exact .cut (Nat.succ_lt_succ short) (List.forall_mem_cons.mpr ⟨hx, isOpen⟩)
        | endless long isOpen =>
          refine .endless (Nat.succ_le_succ long) ?_
          rw [List.take_succ_cons]
          exact List.forall_mem_cons.mpr ⟨hx, isOpen⟩
        | closed run last rest split isOpen isLast short =>
          exact .closed (x :: run) last rest (by rw [split, List.cons_append])
            (List.forall_mem_cons.mpr ⟨hx, isOpen⟩) isLast (Nat.succ_lt_succ short)

/-! ## Reading a run -/

/-- Bytes with the high bit are too many or too few. -/
theorem readGroups_of_isOpen (h : IsOpen b) (count : Nat) :
    readGroups count b = .error (if count ≤ b.length then .tooLong else .truncated) := by
  induction b generalizing count with
  | nil =>
    cases count with
    | zero => rfl
    | succ count => rfl
  | cons x b ih =>
    obtain ⟨hx, hb⟩ := List.forall_mem_cons.mp h
    cases count with
    | zero => rfl
    | succ count =>
      rw [readGroups, if_neg (UInt8.not_lt.mpr hx), ih hb count, List.length_cons]
      simp only [Nat.add_le_add_iff_right]

/-- Bytes that mark that more follow are read with the first byte that does not. -/
theorem readGroups_of_closed (hopen : IsOpen run) (hlast : last < 128) (hlt : run.length < count) :
    readGroups count (run ++ last :: rest) = .ok (run ++ [last], rest) := by
  induction run generalizing count with
  | nil =>
    obtain ⟨count, rfl⟩ := Nat.exists_eq_succ_of_ne_zero (Nat.ne_zero_of_lt hlt)
    rw [List.nil_append, readGroups, if_pos hlast, List.nil_append]
  | cons x run ih =>
    obtain ⟨hx, hrun⟩ := List.forall_mem_cons.mp hopen
    obtain ⟨count, rfl⟩ := Nat.exists_eq_succ_of_ne_zero (Nat.ne_zero_of_lt hlt)
    rw [List.cons_append, readGroups, if_neg (UInt8.not_lt.mpr hx),
      ih hrun (Nat.lt_of_succ_lt_succ hlt), List.cons_append]

/-! ## The number of a run -/

/-- The bytes behind others count from a higher power of 128 on. -/
theorem value_append (a b : Bytes) : value (a ++ b) = value a + 128 ^ a.length * value b := by
  induction a with
  | nil => simp [value]
  | cons x a ih =>
    have hcons (c : Bytes) : value (x :: c) = x.toNat % 128 + 128 * value c := rfl
    rw [List.cons_append, hcons, hcons, ih, List.length_cons, pow_succ]
    ring

/-- The value of some bytes has seven bits for each. -/
theorem value_lt (b : Bytes) : value b < 128 ^ b.length := by
  induction b with
  | nil => simp [value]
  | cons x b ih =>
    have hcons : value (x :: b) = x.toNat % 128 + 128 * value b := rfl
    have hx : x.toNat % 128 < 128 := Nat.mod_lt _ (by decide)
    rw [hcons, List.length_cons, pow_succ]
    omega

/-- A run of at most ten bytes writes a number of more than 64 binary digits exactly if its last
byte is the tenth and at least 2. -/
theorem limit_le_value_iff (hlast : last < 128) (hlt : run.length < maxLength) :
    limit ≤ value (run ++ [last]) ↔ run.length = 9 ∧ 2 ≤ last := by
  have hlast : last.toNat < 128 := UInt8.lt_iff_toNat_lt.mp hlast
  have hsingle : value [last] = last.toNat := by simp [value]; omega
  have hrun := value_lt run
  have hlimit : limit = 2 * 128 ^ 9 := by decide
  have hmax : maxLength = 10 := rfl
  rw [value_append, hsingle, hlimit, UInt8.le_iff_toNat_le]
  rcases Nat.lt_or_ge run.length 9 with hshort | hlong
  · -- Nine base-128 digits are fewer than 64 binary ones.
    have hpow : 128 ^ (run.length + 1) ≤ 128 ^ 9 := Nat.pow_le_pow_right (by decide) hshort
    have hdigit : 128 ^ run.length * last.toNat ≤ 128 ^ run.length * 127 :=
      Nat.mul_le_mul_left _ (by omega)
    rw [pow_succ] at hpow
    have hne : run.length ≠ 9 := by omega
    simp only [hne, false_and, iff_false]
    omega
  · have hnine : run.length = 9 := by omega
    have htwo : (2 : UInt8).toNat = 2 := rfl
    rw [hnine] at hrun ⊢
    simp only [htwo, true_and]
    omega

/-! ## What is read -/

/-- Bytes that all mark that more follow are cut off. -/
theorem read_of_isOpen_of_lt (h : IsOpen b) (hlt : b.length < maxLength) :
    read b = .error .truncated := by
  rw [read, readGroups_of_isOpen h, if_neg (Nat.not_le.mpr hlt)]

/-- Ten bytes that mark that more follow are too many. -/
theorem read_of_isOpen_take (hle : maxLength ≤ b.length) (h : IsOpen (b.take maxLength)) :
    read b = .error .tooLong := by
  have hten : readGroups maxLength (b.take maxLength) = .error .tooLong := by
    rw [readGroups_of_isOpen h, if_pos (by rw [List.length_take]; omega)]
  have hread := readGroups_append_of_error hten nofun (b.drop maxLength)
  rw [List.take_append_drop] at hread
  rw [read, hread]

/-- Bytes with a last one are refused for its value, or read. -/
theorem read_of_closed (hopen : IsOpen run) (hlast : last < 128) (hlt : run.length < maxLength) :
    read (run ++ last :: rest) =
      if run ≠ [] ∧ last = 0 then .error .nonMinimal
      else if run.length = 9 ∧ 2 ≤ last then .error .exceeds
      else .ok (value (run ++ [last]), rest) := by
  have hmany : 1 < (run ++ [last]).length ↔ run ≠ [] := by
    rw [List.length_append, List.length_singleton, Nat.lt_add_left_iff_pos, List.length_pos_iff]
  have hend : (run ++ [last]).getLast? = some 0 ↔ last = 0 := by simp
  rw [read, readGroups_of_closed hopen hlast hlt]
  simp only [hmany, hend, limit_le_value_iff hlast hlt]

/-! ## The faults -/

/-- The bytes for which reading ends in a fault. -/
def Fault.Describes : Fault → Bytes → Prop
  | truncated, b => b.length < maxLength ∧ IsOpen b
  | tooLong, b => maxLength ≤ b.length ∧ IsOpen (b.take maxLength)
  | nonMinimal, b => ∃ run rest, b = run ++ 0 :: rest ∧ IsOpen run ∧
      2 ≤ run.length + 1 ∧ run.length + 1 ≤ maxLength
  | exceeds, b => ∃ run last rest, b = run ++ last :: rest ∧ IsOpen run ∧
      run.length + 1 = maxLength ∧ 2 ≤ last ∧ last < 128

/-- A fault that is found describes the bytes. -/
theorem describes_of_read {fault : Fault} (h : read b = .error fault) : fault.Describes b := by
  cases shape maxLength b with
  | cut short isOpen =>
    rw [read_of_isOpen_of_lt isOpen short] at h
    cases h
    exact ⟨short, isOpen⟩
  | endless long isOpen =>
    rw [read_of_isOpen_take long isOpen] at h
    cases h
    exact ⟨long, isOpen⟩
  | closed run last rest split isOpen isLast short =>
    rw [split, read_of_closed isOpen isLast short] at h
    split_ifs at h with hzero hlarge
    · cases h
      obtain ⟨hne, rfl⟩ := hzero
      have hpos : 0 < run.length := List.length_pos_iff.mpr hne
      exact ⟨run, rest, split, isOpen, Nat.succ_le_succ hpos, short⟩
    · cases h
      obtain ⟨hnine, htwo⟩ := hlarge
      exact ⟨run, last, rest, split, isOpen, congrArg Nat.succ hnine, htwo, isLast⟩

/-- A fault that describes the bytes is found. -/
theorem read_of_describes {fault : Fault} (h : fault.Describes b) : read b = .error fault := by
  cases fault with
  | truncated => exact read_of_isOpen_of_lt h.2 h.1
  | tooLong => exact read_of_isOpen_take h.1 h.2
  | nonMinimal =>
    obtain ⟨run, rest, rfl, hopen, htwo, hle⟩ := h
    have hne : run ≠ [] := List.length_pos_iff.mp (Nat.le_of_succ_le_succ htwo)
    rw [read_of_closed hopen (by decide) hle, if_pos ⟨hne, rfl⟩]
  | exceeds =>
    obtain ⟨run, last, rest, rfl, hopen, hten, htwo, hlast⟩ := h
    have hnine : run.length = 9 := Nat.succ.inj hten
    -- The last byte is not zero.
    have hzero : ¬ (run ≠ [] ∧ last = 0) := by
      rintro ⟨-, rfl⟩
      exact absurd htwo (by decide)
    rw [read_of_closed hopen hlast (Nat.le_of_eq hten), if_neg hzero, if_pos ⟨hnine, htwo⟩]

/-- The fault that is found is the one that describes the bytes. -/
theorem read_eq_error_iff {fault : Fault} : read b = .error fault ↔ fault.Describes b :=
  ⟨describes_of_read, read_of_describes⟩

/-- Bytes that are cut off are completed by a byte that is a digit. -/
theorem read_append_one (h : Fault.truncated.Describes b) : ∃ n, read (b ++ [1]) = .ok (n, []) := by
  have hzero : ¬ (b ≠ [] ∧ (1 : UInt8) = 0) := fun h => absurd h.2 (by decide)
  have hlarge : ¬ (b.length = 9 ∧ (2 : UInt8) ≤ 1) := fun h => absurd h.2 (by decide)
  refine ⟨value (b ++ [1]), ?_⟩
  rw [read_of_closed h.2 (by decide) h.1, if_neg hzero, if_neg hlarge]

/-- The bytes that are cut off are the beginnings of forms. -/
theorem read_eq_truncated_iff : read b = .error .truncated ↔
    ∃ (v : Int) (form : Bytes), encodeInt v = .ok form ∧ b <+: form ∧ b ≠ form := by
  constructor
  · intro h
    obtain ⟨n, hread⟩ := read_append_one (describes_of_read h)
    obtain ⟨hlt, hform⟩ := eq_encode_append_of_read hread
    rw [List.append_nil] at hform
    have hlimit : limit = 2 ^ 64 := by decide
    refine ⟨n, b ++ [1], encodeInt_eq_ok_iff.mpr ⟨by omega, by omega, ?_⟩, ⟨[1], rfl⟩, by simp⟩
    rw [hform, Int.toNat_natCast]
  · rintro ⟨v, form, hform, ⟨c, rfl⟩, hne⟩
    obtain ⟨hnonneg, hlt, hencode⟩ := encodeInt_eq_ok_iff.mp hform
    have hlimit : limit = 2 ^ 64 := by decide
    have hread : read (b ++ c) = .ok (v.toNat, []) := by
      rw [hencode, ← List.append_nil (encode _)]
      exact read_encode (by omega) []
    cases hb : read b with
    | ok result =>
      -- A form that is read from the beginning is all of it.
      obtain ⟨n, rest⟩ := result
      obtain ⟨-, hsplit⟩ := eq_encode_append_of_read hb
      rw [hsplit, List.append_assoc] at hencode
      have hnil := (encode_append_inj (hencode.trans (List.append_nil _).symm)).2
      rw [List.append_eq_nil_iff] at hnil
      exact absurd (by rw [hnil.2, List.append_nil]) hne
    | error fault =>
      by_cases hfault : fault = .truncated
      · rw [hfault]
      · rw [read_append_of_error hb hfault c] at hread
        cases hread

/-! ## Positions -/

variable {data more : Bytes} {offset : Nat}

/-- A fault at an offset is one of the bytes from there on. -/
theorem decodeAt_eq_error_iff {fault : Fault} :
    decodeAt data offset = .error fault ↔ read (data.drop offset) = .error fault := by
  rw [decodeAt]
  cases read (data.drop offset) <;> simp [Except.map]

/-- Bytes that are read from an offset are decoded there. -/
theorem exists_decodeAt_of_read {v : Nat} (h : read (data.drop offset) = .ok (v, rest)) :
    ∃ n, decodeAt data offset = .ok (v, n) := by
  rw [decodeAt, h]
  exact ⟨_, rfl⟩

/-- What is read at a position is read there whatever follows. -/
theorem decodeAt_append_of_ok {v n : Nat} (h : decodeAt data offset = .ok (v, n)) (more : Bytes) :
    decodeAt (data ++ more) offset = .ok (v, n) := by
  rw [decodeAt_eq_ok_iff] at h ⊢
  obtain ⟨hlt, hn, htake⟩ := h
  refine ⟨hlt, hn, ?_⟩
  have hle : n ≤ (data.drop offset).length := by
    have hlength := congrArg List.length htake
    rw [List.length_take, ← hn] at hlength
    omega
  rw [List.drop_append, List.take_append_of_le_length hle, htake]

/-- What is refused at a position is refused there whatever follows, unless it is cut off. -/
theorem decodeAt_append_of_error {fault : Fault} (h : decodeAt data offset = .error fault)
    (hfault : fault ≠ .truncated) (more : Bytes) :
    decodeAt (data ++ more) offset = .error fault := by
  rw [decodeAt_eq_error_iff] at h ⊢
  rw [List.drop_append]
  exact read_append_of_error h hfault _

/-- What is cut off at a position is completed by some bytes. -/
theorem exists_decodeAt_append (h : decodeAt data offset = .error .truncated) :
    ∃ more v n, decodeAt (data ++ more) offset = .ok (v, n) := by
  obtain ⟨v, hread⟩ := read_append_one (describes_of_read (decodeAt_eq_error_iff.mp h))
  -- The bytes between the end and a position behind it play no part.
  have hdrop : (data ++ (List.replicate (offset - data.length) 0 ++ [1])).drop offset =
      data.drop offset ++ [1] := by
    rw [List.drop_append, List.drop_left' List.length_replicate]
  rw [← hdrop] at hread
  exact ⟨_, v, exists_decodeAt_of_read hread⟩

/-- Reading at a position is refused with a given message. -/
def Refuses (data : Bytes) (offset : Nat) (message : String) : Prop :=
  (decodeAt data offset).mapError Fault.message = .error message

/-- Every fault has a message of its own. -/
theorem Fault.message_injective {f g : Fault} (h : f.message = g.message) : f = g := by
  cases f <;> cases g <;> first | rfl | exact absurd h (by decide)

/-- A refusal with the message of a fault is one for this fault. -/
theorem refuses_message_iff {fault : Fault} :
    Refuses data offset fault.message ↔ decodeAt data offset = .error fault := by
  rw [Refuses]
  cases decodeAt data offset with
  | ok result => simp
  | error f => simpa using ⟨Fault.message_injective, congrArg Fault.message⟩

/-- Every refusal has the message of a fault. -/
theorem exists_fault_of_refuses {message : String} (h : Refuses data offset message) :
    ∃ fault : Fault, fault.message = message := by
  rw [Refuses] at h
  cases hread : decodeAt data offset with
  | ok result =>
    rw [hread] at h
    cases h
  | error fault =>
    rw [hread] at h
    exact ⟨fault, Except.error.inj h⟩

/-! ## Classification -/

/-- Each message of a refusal stands for one shape of the bytes at the position, and there are no
other messages. Bytes are cut off exactly if they are a proper beginning of the form of an integer
below `2 ^ 64`; they are too many if the first ten of them have the high bit; a form is not minimal
if zero is the last of two to ten bytes; and it exceeds 64 bits if its tenth byte is the last one
and at least 2. What is read at a position, and what is refused there, stays the same whatever
follows. Only bytes that are cut off change: some continuation is read. -/
theorem refusals_classified (data : Bytes) (offset : Nat) :
    let b := data.drop offset
    (Refuses data offset "Truncated varint" ↔
      ∃ (v : Int) (form : Bytes), encodeInt v = .ok form ∧ b <+: form ∧ b ≠ form) ∧
    (Refuses data offset "Varint too long" ↔ 10 ≤ b.length ∧ ∀ x ∈ b.take 10, 128 ≤ x) ∧
    (Refuses data offset "Non-minimal varint" ↔
      ∃ run rest : Bytes, b = run ++ 0 :: rest ∧ (∀ x ∈ run, 128 ≤ x) ∧
        2 ≤ run.length + 1 ∧ run.length + 1 ≤ 10) ∧
    (Refuses data offset "Varint exceeds 64 bits" ↔
      ∃ (run : Bytes) (last : UInt8) (rest : Bytes), b = run ++ last :: rest ∧
        (∀ x ∈ run, 128 ≤ x) ∧ run.length + 1 = 10 ∧ 2 ≤ last ∧ last < 128) ∧
    (∀ message, Refuses data offset message → message = "Truncated varint" ∨
      message = "Varint too long" ∨ message = "Non-minimal varint" ∨
      message = "Varint exceeds 64 bits") ∧
    (∀ (v n : Nat) (more : Bytes), decodeAt data offset = .ok (v, n) →
      decodeAt (data ++ more) offset = .ok (v, n)) ∧
    (∀ (message : String) (more : Bytes), Refuses data offset message →
      message ≠ "Truncated varint" → Refuses (data ++ more) offset message) ∧
    (Refuses data offset "Truncated varint" →
      ∃ (more : Bytes) (v n : Nat), decodeAt (data ++ more) offset = .ok (v, n)) := by
  intro b
  have hfault (fault : Fault) : Refuses data offset fault.message ↔ fault.Describes b :=
    refuses_message_iff.trans (decodeAt_eq_error_iff.trans read_eq_error_iff)
  have htruncated : Refuses data offset "Truncated varint" ↔
      decodeAt data offset = .error .truncated := @refuses_message_iff data offset .truncated
  refine ⟨?_, hfault .tooLong, hfault .nonMinimal, hfault .exceeds, fun message h => ?_,
    fun v n more h => decodeAt_append_of_ok h more, fun message more h hne => ?_, fun h => ?_⟩
  · exact htruncated.trans (decodeAt_eq_error_iff.trans read_eq_truncated_iff)
  · obtain ⟨fault, rfl⟩ := exists_fault_of_refuses h
    cases fault <;> simp [Fault.message]
  · obtain ⟨fault, rfl⟩ := exists_fault_of_refuses h
    have hread := refuses_message_iff.mp h
    exact refuses_message_iff.mpr
      (decodeAt_append_of_error hread (fun heq => hne (congrArg Fault.message heq)) more)
  · exact exists_decodeAt_append (htruncated.mp h)

/-- A byte with the high bit at the end is cut off and can be completed. A zero after such a byte is
refused, and 7 is read, whatever follows. -/
theorem refusals_classified_at_end :
    Refuses [0xff, 0x80] 1 "Truncated varint" ∧
      (∃ (more : Bytes) (v n : Nat), decodeAt ([0xff, 0x80] ++ more) 1 = .ok (v, n)) ∧
      Refuses [0x80, 0x00] 0 "Non-minimal varint" ∧
      Refuses ([0x80, 0x00] ++ [0x01]) 0 "Non-minimal varint" ∧
      decodeAt [0x07] 0 = .ok (7, 1) ∧ decodeAt ([0x07] ++ [0x80]) 0 = .ok (7, 1) := by
  obtain ⟨-, -, -, -, -, -, -, hcompleted⟩ := refusals_classified [0xff, 0x80] 1
  obtain ⟨-, -, hzero, -, -, -, hrefused, -⟩ := refusals_classified [0x80, 0x00] 0
  obtain ⟨-, -, -, -, -, hread, -, -⟩ := refusals_classified [0x07] 0
  have hcut : Refuses [0xff, 0x80] 1 "Truncated varint" := rfl
  have hminimal : Refuses [0x80, 0x00] 0 "Non-minimal varint" :=
    hzero.mpr ⟨[0x80], [], rfl, by simp, by decide, by decide⟩
  have hseven : decodeAt [0x07] 0 = .ok (7, 1) := rfl
  exact ⟨hcut, hcompleted hcut, hminimal, hrefused _ [0x01] hminimal (by decide), hseven,
    hread _ _ [0x80] hseven⟩

end PeerIdentity.Varint
