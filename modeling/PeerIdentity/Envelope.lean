import PeerIdentity.Error
import PeerIdentity.Varint

/-!
# Key envelopes

A key travels in a message of two fields, its type and its data. The type is field 1, a
variable-length integer, and the data is field 2, a length and as many bytes. Reading takes the
fields in any order, keeps the last of several, and skips fields of other numbers.

* `Envelope.encode`: the one written form of a message;
* `Envelope.Field.read`, `Envelope.fields`: read one field and all fields;
* `Envelope.ofFields`: the message of a list of fields;
* `Envelope.decode`: the message that bytes write.
-/

namespace PeerIdentity

/-- A key of a given type, as the bytes of its encoding. -/
structure Envelope where
  /-- The type of the key. -/
  keyType : KeyType
  /-- The encoding of the key. -/
  data : Bytes
  deriving DecidableEq, Repr

namespace Envelope

/-- The written form: the type, then the data. -/
def encode (m : Envelope) : Bytes :=
  0x08 :: Varint.encode m.keyType.code ++ 0x12 :: Varint.encode m.data.length ++ m.data

/-! ## Fields -/

/-- Why bytes are no list of fields. -/
inductive Fault where
  /-- An integer is ill-formed where `left` bytes are left. -/
  | varint (fault : Varint.Fault) (left : Nat)
  /-- A length is more than the bytes that follow it. -/
  | shortData (needed left : Nat)
  /-- A field has the number zero. -/
  | fieldZero
  /-- The type is not written as an integer. -/
  | typeForm (form : Nat)
  /-- The data is not written as bytes. -/
  | dataForm (form : Nat)
  /-- A field of four or eight bytes is cut off. -/
  | truncatedFixed
  /-- A field is written in a form that does not exist. -/
  | unknownForm (form : Nat)
  deriving DecidableEq, Repr

/-- The message for bytes, `length` of them, that are no list of fields. -/
def Fault.message (length : Nat) : Fault → String
  | varint fault left => s!"{fault.message} at byte offset {length - left}"
  | shortData needed left => s!"length-delimited field needs {needed} bytes, only {left} left"
  | fieldZero => "invalid field number 0"
  | typeForm form => s!"Type field has wire type {form}"
  | dataForm form => s!"Data field has wire type {form}"
  | truncatedFixed => "truncated fixed-width field"
  | unknownForm form => s!"unsupported wire type {form}"

/-- A field of a message. -/
inductive Field where
  | keyType (code : Nat)
  | data (b : Bytes)
  | unknown
  deriving DecidableEq, Repr

/-- Reads an integer. -/
def readVarint (b : Bytes) : Except Fault (Nat × Bytes) :=
  match Varint.read b with
  | .ok result => .ok result
  | .error fault => .error (.varint fault b.length)

/-- Reads a length and as many bytes. -/
def readData (b : Bytes) : Except Fault (Bytes × Bytes) :=
  match readVarint b with
  | .error fault => .error fault
  | .ok (n, rest) =>
    if n ≤ rest.length then .ok (rest.take n, rest.drop n) else .error (.shortData n rest.length)

/-- Skips a number of bytes. -/
def skip (width : Nat) (b : Bytes) : Except Fault (Field × Bytes) :=
  if width ≤ b.length then .ok (.unknown, b.drop width) else .error .truncatedFixed

/-- Takes what was read for a field. -/
def asField {α : Type} (field : α → Field) : Except Fault (α × Bytes) → Except Fault (Field × Bytes)
  | .ok (a, rest) => .ok (field a, rest)
  | .error fault => .error fault

/-- Reads the value of the field of a number that is written in a form. -/
def readValue (number form : Nat) (b : Bytes) : Except Fault (Field × Bytes) :=
  if number = 0 then .error .fieldZero
  else if number = 1 then
    if form = 0 then asField .keyType (readVarint b)
    else .error (.typeForm form)
  else if number = 2 then
    if form = 2 then asField .data (readData b)
    else .error (.dataForm form)
  else
    match form with
    | 0 => asField (fun _ => .unknown) (readVarint b)
    | 1 => skip 8 b
    | 2 => asField (fun _ => .unknown) (readData b)
    | 5 => skip 4 b
    | _ => .error (.unknownForm form)

/-- Reads a field: an integer that holds the number and, in its three lowest bits, the form, and the
value. -/
def Field.read (b : Bytes) : Except Fault (Field × Bytes) :=
  match readVarint b with
  | .error fault => .error fault
  | .ok (tag, rest) => readValue (tag / 8) (tag % 8) rest

/-! ## Lengths -/

/-- Reading an integer uses up a byte at least. -/
theorem length_readVarint {b rest : Bytes} {n : Nat} (h : readVarint b = .ok (n, rest)) :
    rest.length < b.length := by
  unfold readVarint at h
  split at h
  · rename_i r hr
    cases h
    exact Varint.length_read hr
  · simp at h

/-- Reading data with its length uses up a byte at least. -/
theorem length_readData {b d rest : Bytes} (h : readData b = .ok (d, rest)) :
    rest.length < b.length := by
  unfold readData at h
  split at h
  · simp at h
  · rename_i n r hr
    have := length_readVarint hr
    split at h
    · simp only [Except.ok.injEq, Prod.mk.injEq] at h
      simp only [← h.2, List.length_drop]
      omega
    · simp at h

/-- Skipping bytes leaves no more bytes than there were. -/
theorem length_skip {width : Nat} {b rest : Bytes} {f : Field} (h : skip width b = .ok (f, rest)) :
    rest.length ≤ b.length := by
  unfold skip at h
  split at h
  · simp only [Except.ok.injEq, Prod.mk.injEq] at h
    simp [← h.2]
  · simp at h

/-- A field that is read comes from a value that is read. -/
theorem of_asField {α : Type} {field : α → Field} {x : Except Fault (α × Bytes)} {f : Field}
    {rest : Bytes} (h : asField field x = .ok (f, rest)) : ∃ a, x = .ok (a, rest) := by
  unfold asField at h
  split at h
  · rename_i a r
    simp only [Except.ok.injEq, Prod.mk.injEq] at h
    exact ⟨a, by rw [h.2]⟩
  · simp at h

/-- What is left after the value of a field is no longer than what the value was read from. -/
theorem length_readValue {number form : Nat} {b rest : Bytes} {f : Field}
    (h : readValue number form b = .ok (f, rest)) : rest.length ≤ b.length := by
  have varint {field : Nat → Field} (h : asField field (readVarint b) = .ok (f, rest)) :
      rest.length ≤ b.length :=
    (of_asField h).elim fun _ h => Nat.le_of_lt (length_readVarint h)
  have data {field : Bytes → Field} (h : asField field (readData b) = .ok (f, rest)) :
      rest.length ≤ b.length :=
    (of_asField h).elim fun _ h => Nat.le_of_lt (length_readData h)
  unfold readValue at h
  split at h
  · simp at h
  split at h
  · split at h
    · exact varint h
    · simp at h
  split at h
  · split at h
    · exact data h
    · simp at h
  split at h
  · exact varint h
  · exact length_skip h
  · exact data h
  · exact length_skip h
  · simp at h

/-- Reading a field takes at least one byte. -/
theorem Field.length_read {b rest : Bytes} {f : Field} (h : Field.read b = .ok (f, rest)) :
    rest.length < b.length := by
  unfold Field.read at h
  split at h
  · simp at h
  · rename_i tag r hr
    have := length_readVarint hr
    have := length_readValue h
    omega

/-! ## Messages -/

/-- The fields that bytes write. -/
def fields (b : Bytes) : Except Fault (List Field) :=
  if b = [] then .ok []
  else
    match _h : Field.read b with
    | .error fault => .error fault
    | .ok (f, rest) =>
      match fields rest with
      | .error fault => .error fault
      | .ok fs => .ok (f :: fs)
termination_by b.length
decreasing_by exact Field.length_read _h

/-- The number in a type field. -/
def Field.code? : Field → Option Nat
  | keyType code => some code
  | _ => none

/-- The bytes in a data field. -/
def Field.data? : Field → Option Bytes
  | data b => some b
  | _ => none

/-- The last type of a list of fields. -/
def lastCode? (fs : List Field) : Option Nat :=
  (fs.filterMap Field.code?).getLast?

/-- The last data of a list of fields, and no bytes when there is none. -/
def lastData (fs : List Field) : Bytes :=
  (fs.filterMap Field.data?).getLast?.getD []

/-- Why bytes are no message. -/
inductive Failure where
  /-- The bytes are no list of fields. -/
  | malformed (fault : Fault)
  /-- There is no type. -/
  | missingType
  /-- The last type is a number that is no type's. -/
  | unknownType (code : Nat)
  deriving DecidableEq, Repr

/-- The message of a list of fields. -/
def ofFields (fs : List Field) : Except Failure Envelope :=
  match lastCode? fs with
  | none => .error .missingType
  | some code =>
    match KeyType.ofCode? code with
    | none => .error (.unknownType code)
    | some t => .ok ⟨t, lastData fs⟩

/-- Reads the message that bytes write. -/
def read (b : Bytes) : Except Failure Envelope :=
  match fields b with
  | .error fault => .error (.malformed fault)
  | .ok fs => ofFields fs

/-- The error for bytes, `length` of them, that are no message. -/
def Failure.toError (length : Nat) : Failure → IdentityError
  | malformed fault => .decoding none (fault.message length)
  | missingType => .unsupportedKeyType none
  | unknownType code => .unsupportedKeyType (some code)

/-- The message that bytes write. -/
def decode (b : Bytes) : Except IdentityError Envelope :=
  (read b).mapError (Failure.toError b.length)

end Envelope

end PeerIdentity
