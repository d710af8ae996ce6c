import PeerIdentity.Der
import PeerIdentity.Proofs.Bytes

/-!
# Reading back the distinguished encoding

Every reader gives back what the writer beside it has written, and leaves the bytes after it.
Lengths are read up to four bytes, so the contents of an element have fewer than `2 ^ 32` bytes:

* `readAny?_element`, `read?_element`, `whole?_element`: elements;
* `readInteger?_integer`, `integers?_flatten`: integers and sequences of them;
* `length_element_le`, `length_integer_le`: bounds of the lengths of elements;
* `length_element_of_lt`, `length_integer_of_lt`: the lengths of short elements;
* `element_injective`, `integer_injective`: an element determines its contents, whatever their
  length.
-/

namespace PeerIdentity.Der

/-- The contents of an element with a length that is read. -/
def contentsLimit : Nat :=
  2 ^ 32

/-! ## Lengths -/

/-- A length below the limit has at most four bytes. -/
theorem byteLength_le_four {n : Nat} (h : n < contentsLimit) : Bytes.byteLength n ≤ 4 :=
  Bytes.byteLength_le_iff.mpr h

/-- The length bytes of an element are at most five. -/
theorem length_lengthBytes_le {n : Nat} (h : n < contentsLimit) : (lengthBytes n).length ≤ 5 := by
  have := byteLength_le_four h
  rw [lengthBytes]
  split
  · simp
  · rw [List.length_cons, Bytes.length_ofNat]
    omega

/-- A length below the limit is read back, with what follows it. -/
theorem readLength?_lengthBytes {n : Nat} (h : n < contentsLimit) (rest : Bytes) :
    readLength? (lengthBytes n ++ rest) = some (n, rest) := by
  have hcount := byteLength_le_four h
  rw [lengthBytes]
  split
  -- Below 128 the length is one byte.
  next hn =>
    have hsmall : UInt8.ofNat n < 128 := by
      rw [UInt8.lt_iff_toNat_lt, UInt8.toNat_ofNat']
      exact Nat.lt_of_le_of_lt (Nat.mod_le _ _) hn
    have hvalue : (UInt8.ofNat n).toNat = n := by
      rw [UInt8.toNat_ofNat']
      omega
    simp [readLength?, hsmall, hvalue]
  -- From 128 on the first byte counts the bytes of the length, of which there are up to four.
  next hn =>
    have hvalue : (UInt8.ofNat (128 + Bytes.byteLength n)).toNat = 128 + Bytes.byteLength n := by
      rw [UInt8.toNat_ofNat']
      omega
    have hlarge : ¬ UInt8.ofNat (128 + Bytes.byteLength n) < 128 := by
      rw [UInt8.lt_iff_toNat_lt, hvalue]
      exact Nat.not_lt.mpr (Nat.le_add_right _ _)
    have htake : (Bytes.ofNat n ++ rest).take (Bytes.byteLength n) = Bytes.ofNat n :=
      List.take_left' (Bytes.length_ofNat n)
    have hdrop : (Bytes.ofNat n ++ rest).drop (Bytes.byteLength n) = rest :=
      List.drop_left' (Bytes.length_ofNat n)
    have hlen : Bytes.byteLength n ≤ (Bytes.ofNat n ++ rest).length := by simp
    rw [List.cons_append, readLength?, if_neg hlarge, hvalue, Nat.add_sub_cancel_left]
    simp only [htake, hdrop, Bytes.toNatBE_ofNat]
    exact if_pos ⟨hcount, hlen, Nat.not_lt.mp hn, trivial⟩

/-! ## Elements -/

/-- An element is at most six bytes longer than its contents. -/
theorem length_element_le (tag : UInt8) (contents : Bytes)
    (h : contents.length < contentsLimit) :
    (element tag contents).length ≤ contents.length + 6 := by
  have := length_lengthBytes_le h
  simp only [element, List.cons_append, List.length_cons, List.length_append]
  omega

/-- A sequence is at most six bytes longer than its elements. -/
theorem length_sequence_le {elements : List Bytes} {bound : Nat}
    (h : elements.flatten.length ≤ bound) (hbound : bound < contentsLimit) :
    (sequence elements).length ≤ bound + 6 :=
  Nat.le_trans (length_element_le sequenceTag _ (Nat.lt_of_le_of_lt h hbound))
    (Nat.add_le_add_right h 6)

/-- Below 128 bytes of contents the identifier and the length take one byte each. -/
theorem length_element_of_lt (tag : UInt8) {contents : Bytes} (h : contents.length < 128) :
    (element tag contents).length = contents.length + 2 := by
  simp [element, lengthBytes, h]

/-- An element is not shorter than its contents. -/
theorem length_le_length_element (tag : UInt8) (contents : Bytes) :
    contents.length ≤ (element tag contents).length := by
  simp only [element, List.cons_append, List.length_cons, List.length_append]
  omega

/-- A larger length has no fewer length bytes. -/
theorem length_lengthBytes_mono {m n : Nat} (h : m ≤ n) :
    (lengthBytes m).length ≤ (lengthBytes n).length := by
  have hbytes := Bytes.byteLength_mono h
  rw [lengthBytes, lengthBytes]
  split <;> split <;> simp only [List.length_cons, List.length_nil, Bytes.length_ofNat] <;> omega

/-- An element determines its contents. Longer contents make a longer element, so the contents of
equal elements have one length. -/
theorem element_injective {tag : UInt8} {a b : Bytes} (h : element tag a = element tag b) :
    a = b := by
  have htotal := congrArg List.length h
  simp only [element, List.cons_append, List.length_cons, List.length_append] at htotal
  have hlen : a.length = b.length := by
    rcases Nat.le_total a.length b.length with hle | hle
    · have := length_lengthBytes_mono hle
      omega
    · have := length_lengthBytes_mono hle
      omega
  rw [element, element, hlen] at h
  exact List.append_cancel_left (List.cons.inj h).2

/-- An element is read back, with what follows it. -/
theorem readAny?_element {tag : UInt8} {contents : Bytes} (htag : tag.toNat % 32 < 31)
    (h : contents.length < contentsLimit) (rest : Bytes) :
    readAny? (element tag contents ++ rest) = some (tag, contents, rest) := by
  rw [element, List.cons_append, List.cons_append, List.append_assoc, readAny?,
    readLength?_lengthBytes h]
  simp [htag]

/-- An element is read back under its identifier. -/
theorem read?_element {tag : UInt8} {contents : Bytes} (htag : tag.toNat % 32 < 31)
    (h : contents.length < contentsLimit) (rest : Bytes) :
    read? tag (element tag contents ++ rest) = some (contents, rest) := by
  simp [read?, readAny?_element htag h]

/-- An element with another identifier is not read. -/
theorem read?_of_head? {tag : UInt8} {b : Bytes} (h : b.head? ≠ some tag) : read? tag b = none := by
  cases b with
  | nil => simp [read?, readAny?]
  | cons found b =>
    have hne : found ≠ tag := by simpa using h
    simp only [read?, readAny?, Option.bind_eq_bind, Option.bind_eq_none_iff]
    rintro ⟨found', contents, rest⟩ hread
    obtain ⟨⟨n, rest'⟩, -, hread⟩ := Option.bind_eq_some_iff.mp hread
    split at hread
    next => simp_all
    next => cases hread

/-- The contents of an element with nothing after it are read back. -/
theorem whole?_element {tag : UInt8} {contents : Bytes} (htag : tag.toNat % 32 < 31)
    (h : contents.length < contentsLimit) : whole? tag (element tag contents) = some contents := by
  have hread := read?_element htag h []
  rw [List.append_nil] at hread
  simp [whole?, hread]

/-- An optional element that is there is read back. -/
theorem readOptional?_element {tag : UInt8} {contents : Bytes} (htag : tag.toNat % 32 < 31)
    (h : contents.length < contentsLimit) (rest : Bytes) :
    readOptional? tag (element tag contents ++ rest) = some (some contents, rest) := by
  have hhead : (element tag contents ++ rest).head? = some tag := rfl
  rw [readOptional?, if_pos hhead, read?_element htag h]
  rfl

/-- A bit string is at most seven bytes longer than its bits. -/
theorem length_bitString_le {b : Bytes} (h : b.length + 1 < contentsLimit) :
    (bitString b).length ≤ b.length + 7 :=
  length_element_le bitStringTag (0 :: b) h

/-- A bit string is read back, with what follows it. -/
theorem readBitString?_bitString {b : Bytes} (h : b.length + 1 < contentsLimit) (rest : Bytes) :
    readBitString? (bitString b ++ rest) = some (b, rest) := by
  have hlen : (0 :: b).length < contentsLimit := h
  have htag : bitStringTag.toNat % 32 < 31 := by decide
  have hread := read?_element htag hlen rest
  simp [bitString, readBitString?, hread]

/-- A bit string with nothing after it is read back. -/
theorem wholeBitString?_bitString {b : Bytes} (h : b.length + 1 < contentsLimit) :
    wholeBitString? (bitString b) = some b := by
  have hread := readBitString?_bitString h []
  rw [List.append_nil] at hread
  simp [wholeBitString?, hread]

/-! ## Integers -/

/-- An integer has at most one byte more than its number, for the sign. -/
theorem length_integerContents_le (n : Nat) :
    (integerContents n).length ≤ Bytes.byteLength n + 1 := by
  rw [integerContents, Bytes.length_ofNatBE, Bytes.byteLength]
  omega

/-- The contents of an integer are a form of its number. -/
theorem toNatBE_integerContents (n : Nat) : Bytes.toNatBE (integerContents n) = n := by
  refine Bytes.toNatBE_ofNatBE (Bytes.byteLength_le_iff.mp ?_)
  rw [Bytes.byteLength]
  omega

/-- An integer is read back, with what follows it. -/
theorem readInteger?_integer {n : Nat} (h : Bytes.byteLength n + 1 < contentsLimit)
    (rest : Bytes) : readInteger? (integer n ++ rest) = some (n, rest) := by
  have hlen := Nat.lt_of_le_of_lt (length_integerContents_le n) h
  rw [integer, readInteger?, read?_element (by decide) hlen]
  simp [toNatBE_integerContents]

/-- No integer is read where another element starts. -/
theorem readInteger?_of_head? {b : Bytes} (h : b.head? ≠ some integerTag) :
    readInteger? b = none := by
  simp [readInteger?, read?_of_head? h]

/-- Two numbers with one form are equal. -/
theorem integer_injective {m n : Nat} (h : integer m = integer n) : m = n := by
  rw [← toNatBE_integerContents m, element_injective h, toNatBE_integerContents]

/-- An integer is at most seven bytes longer than its number. -/
theorem length_integer_le {n : Nat} (h : Bytes.byteLength n + 1 < contentsLimit) :
    (integer n).length ≤ Bytes.byteLength n + 7 := by
  have hcontents := length_integerContents_le n
  have helement := length_element_le integerTag _ (Nat.lt_of_le_of_lt hcontents h)
  rw [integer]
  omega

/-- An integer of fewer than 128 contents bytes has two bytes in front of them. -/
theorem length_integer_of_lt {n : Nat} (h : Bytes.bitLength n / 8 < 127) :
    (integer n).length = Bytes.bitLength n / 8 + 3 := by
  have hlen : (integerContents n).length = Bytes.bitLength n / 8 + 1 := Bytes.length_ofNatBE _ _
  rw [integer, length_element_of_lt integerTag (by omega), hlen]

/-- The integers that are written one after the other are read back. -/
theorem integers?_flatten {ns : List Nat}
    (h : ∀ n ∈ ns, Bytes.byteLength n + 1 < contentsLimit) :
    integers? ns.length (ns.map integer).flatten = some ns := by
  induction ns with
  | nil => rfl
  | cons n ns ih =>
    have hrest := ih fun m hm => h m (List.mem_cons_of_mem n hm)
    rw [List.map_cons, List.flatten_cons, List.length_cons, integers?,
      readInteger?_integer (h n List.mem_cons_self)]
    simp [hrest]

/-- The length of integers that are written one after the other. -/
theorem length_flatten_integer_le {ns : List Nat} {bound : Nat} (hbound : bound + 1 < contentsLimit)
    (h : ∀ n ∈ ns, Bytes.byteLength n ≤ bound) :
    (ns.map integer).flatten.length ≤ ns.length * (bound + 7) := by
  induction ns with
  | nil => simp
  | cons n ns ih =>
    have hn := h n List.mem_cons_self
    have hfirst := length_integer_le (Nat.lt_of_le_of_lt (Nat.add_le_add_right hn 1) hbound)
    have hrest := ih fun m hm => h m (List.mem_cons_of_mem n hm)
    rw [List.map_cons, List.flatten_cons, List.length_append, List.length_cons, Nat.succ_mul]
    omega

end PeerIdentity.Der
