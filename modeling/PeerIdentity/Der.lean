import PeerIdentity.Bytes

/-!
# Distinguished encoding

The distinguished encoding of nested structures: an element is an identifier byte, the number of
its contents bytes, and the contents. The encoding is strict, so that a value has one encoding:
lengths and integers are minimal, and bit strings consist of whole bytes.

* `element`, `integer`, `bitString`: write an element;
* `read?`, `readInteger?`, `readBitString?`: read an element and return it with the bytes after it;
* `whole?`: the contents of an element after which nothing follows.
-/

namespace PeerIdentity.Der

/-! ## Identifier bytes -/

/-- The identifier of an integer. -/
def integerTag : UInt8 := 0x02

/-- The identifier of a bit string. -/
def bitStringTag : UInt8 := 0x03

/-- The identifier of a string of bytes. -/
def octetStringTag : UInt8 := 0x04

/-- The identifier of the null value. -/
def nullTag : UInt8 := 0x05

/-- The identifier of an object identifier. -/
def identifierTag : UInt8 := 0x06

/-- The identifier of a sequence. -/
def sequenceTag : UInt8 := 0x30

/-- The identifier of a set. -/
def setTag : UInt8 := 0x31

/-- The identifier of the structured element that a structure numbers `n`. -/
def fieldTag (n : UInt8) : UInt8 := 0xa0 + n

/-! ## Writing -/

/-- The bytes of a length: one byte below 128, else the number of length bytes and those bytes. -/
def lengthBytes (n : Nat) : Bytes :=
  if n < 128 then [UInt8.ofNat n]
  else UInt8.ofNat (128 + Bytes.byteLength n) :: Bytes.ofNat n

/-- An element. -/
def element (tag : UInt8) (contents : Bytes) : Bytes :=
  tag :: lengthBytes contents.length ++ contents

/-- The contents of an integer: the fewest bytes whose highest bit is clear. -/
def integerContents (n : Nat) : Bytes :=
  Bytes.ofNatBE (Bytes.bitLength n / 8 + 1) n

/-- An integer. -/
def integer (n : Nat) : Bytes :=
  element integerTag (integerContents n)

/-- A bit string of whole bytes. -/
def bitString (b : Bytes) : Bytes :=
  element bitStringTag (0 :: b)

/-- A sequence of elements. -/
def sequence (elements : List Bytes) : Bytes :=
  element sequenceTag elements.flatten

/-- An object identifier. -/
def identifier (contents : Bytes) : Bytes :=
  element identifierTag contents

/-- The null value. -/
def null : Bytes :=
  element nullTag []

/-! ## Reading -/

/-- Reads a length of at most four length bytes. -/
def readLength? : Bytes → Option (Nat × Bytes)
  | [] => none
  | x :: rest =>
    if x < 128 then some (x.toNat, rest)
    else
      let count := x.toNat - 128
      let n := Bytes.toNatBE (rest.take count)
      if count ≤ 4 ∧ count ≤ rest.length ∧ 128 ≤ n ∧ Bytes.byteLength n = count then
        some (n, rest.drop count)
      else none

/-- Reads an element with an identifier of one byte: the identifier, the contents and the rest. -/
def readAny? : Bytes → Option (UInt8 × Bytes × Bytes)
  | [] => none
  | tag :: rest => do
    let (n, rest) ← readLength? rest
    if tag.toNat % 32 < 31 ∧ n ≤ rest.length then some (tag, rest.take n, rest.drop n) else none

/-- Reads an element with a given identifier: the contents and the rest. -/
def read? (tag : UInt8) (b : Bytes) : Option (Bytes × Bytes) := do
  let (found, contents, rest) ← readAny? b
  if found = tag then some (contents, rest) else none

/-- Reads an element with a given identifier if the next identifier is that one. -/
def readOptional? (tag : UInt8) (b : Bytes) : Option (Option Bytes × Bytes) :=
  if b.head? = some tag then (read? tag b).map fun (contents, rest) => (some contents, rest)
  else some (none, b)

/-- The contents of the element with a given identifier that is all of a byte string. -/
def whole? (tag : UInt8) (b : Bytes) : Option Bytes := do
  let (contents, rest) ← read? tag b
  if rest = [] then some contents else none

/-- Reads an integer that is not negative. -/
def readInteger? (b : Bytes) : Option (Nat × Bytes) := do
  let (contents, rest) ← read? integerTag b
  let n := Bytes.toNatBE contents
  -- A negative integer or one with superfluous zeros is not the form of `n`.
  if integerContents n = contents then some (n, rest) else none

/-- The integer that is all of a byte string. -/
def wholeInteger? (b : Bytes) : Option Nat := do
  let (n, rest) ← readInteger? b
  if rest = [] then some n else none

/-- Reads the integers that fill a byte string, `count` of them. -/
def integers? : (count : Nat) → Bytes → Option (List Nat)
  | 0, b => if b = [] then some [] else none
  | count + 1, b => do
    let (n, rest) ← readInteger? b
    (integers? count rest).map (n :: ·)

/-- Reads a bit string of whole bytes. -/
def readBitString? (b : Bytes) : Option (Bytes × Bytes) := do
  match ← read? bitStringTag b with
  | (0 :: bits, rest) => some (bits, rest)
  | _ => none

/-- The bit string that is all of a byte string. -/
def wholeBitString? (b : Bytes) : Option Bytes := do
  let (bits, rest) ← readBitString? b
  if rest = [] then some bits else none

/-! ## Sets -/

/-- Reading a length uses up a byte at least. -/
theorem length_readLength? {b rest : Bytes} {n : Nat} (h : readLength? b = some (n, rest)) :
    rest.length < b.length := by
  cases b with
  | nil => simp [readLength?] at h
  | cons x b =>
    simp only [readLength?] at h
    split at h
    · simp_all
    · split at h
      · simp only [Option.some.injEq, Prod.mk.injEq] at h
        simp only [← h.2, List.length_drop, List.length_cons]
        omega
      · simp at h

/-- Reading an element uses up a byte at least, which bounds the recursion of `elements?`. -/
theorem length_readAny? {b contents rest : Bytes} {tag : UInt8}
    (h : readAny? b = some (tag, contents, rest)) : rest.length < b.length := by
  cases b with
  | nil => simp [readAny?] at h
  | cons x b =>
    simp only [readAny?, Option.bind_eq_bind, Option.bind_eq_some_iff] at h
    obtain ⟨⟨n, r⟩, hr, h⟩ := h
    have := length_readLength? hr
    split at h
    · simp only [Option.some.injEq, Prod.mk.injEq] at h
      simp only [← h.2.2, List.length_drop, List.length_cons]
      omega
    · simp at h

/-- The elements that fill a byte string, each as its identifier and its contents. -/
def elements? (b : Bytes) : Option (List (UInt8 × Bytes)) :=
  if b = [] then some []
  else
    match _h : readAny? b with
    | none => none
    | some (tag, contents, rest) => (elements? rest).map ((tag, contents) :: ·)
termination_by b.length
decreasing_by exact length_readAny? _h

/-- The elements that fill the contents of a set, whose encodings ascend. -/
def setElements? (b : Bytes) : Option (List (UInt8 × Bytes)) := do
  let es ← elements? b
  if (es.map fun e => element e.1 e.2).Pairwise (· ≤ ·) then some es else none

/-- Whether a byte string is the contents of an object identifier: numbers in base 128, each without
a leading zero, the last of them complete. -/
def isIdentifier (contents : Bytes) : Bool :=
  contents.getLast?.any (· < 128) &&
    ((127 :: contents).zip contents).all fun (before, x) => before ≥ 128 || x != 128

end PeerIdentity.Der
