import PeerIdentity.Proofs.PeerIdText

/-!
# The texts that are read as content identifiers

Every identifier is written as one content identifier, but read from several. Letters may be in
either case, and so far the text that is read, once in lower case, is the text that is written.
Three more differences are accepted:

* padding after the digits, which no content identifier has;
* other bits than zeros in the last digit where they belong to no whole byte, since they are
  dropped;
* characters outside ASCII whose upper-case form consists of digits, such as the long `ſ`.

Main statement: `ofCid_spelling` describes every text that is read, and says that no other
differences are accepted.
-/

namespace PeerIdentity.PeerId

open Base32

/-! ## Letters and digits -/

/-- Letters and digits of base 32 in either case. -/
def isCidCharacter (c : Char) : Bool :=
  ('A' ≤ c && c ≤ 'Z') || ('a' ≤ c && c ≤ 'z') || ('2' ≤ c && c ≤ '7')

/-- A character of an identifier is a digit of base 32, in upper case or in lower case. -/
theorem exists_digit_of_isCidCharacter {c : Char} (h : isCidCharacter c = true) :
    ∃ v < 32, upperChar c = [upperDigit v] ∧ c.toLower = digit v := by
  have hlt : c.toNat < 128 := by
    have hbounds : ((65 ≤ c.toNat ∧ c.toNat ≤ 90) ∨ (97 ≤ c.toNat ∧ c.toNat ≤ 122)) ∨
        (50 ≤ c.toNat ∧ c.toNat ≤ 55) := by
      simpa [isCidCharacter, Char.le_def, UInt32.le_iff_toNat_le] using h
    omega
  have hall : ∀ n < 128, isCidCharacter (Char.ofNat n) = true →
      ∃ v < 32, upperChar (Char.ofNat n) = [upperDigit v] ∧ (Char.ofNat n).toLower = digit v := by
    decide +kernel
  have hchar := hall c.toNat hlt
  rw [Char.ofNat_toNat] at hchar
  exact hchar h

/-- Only letters and digits are digits in lower case. -/
theorem isCidCharacter_of_toLower {c : Char} {v : Nat} (hv : v < 32) (h : c.toLower = digit v) :
    isCidCharacter c = true := by
  rcases Nat.lt_or_ge c.toNat 128 with hc | hc
  · have hall : ∀ n < 128, ∀ v < 32, (Char.ofNat n).toLower = digit v →
        isCidCharacter (Char.ofNat n) = true := by
      decide +kernel
    have hchar := hall c.toNat hc v hv
    rw [Char.ofNat_toNat] at hchar
    exact hchar h
  -- Beyond ASCII no character changes, and there are no digits.
  · have hdigit : ∀ v < 32, (digit v).toNat < 128 := by decide
    have hlower : c.toLower = c := by
      refine dif_neg ?_
      rintro ⟨-, hle⟩
      have hle : c.toNat ≤ 90 := hle
      omega
    have hlt := hdigit v hv
    rw [← h, hlower] at hlt
    omega

/-! ## Texts of letters and digits -/

/-- A text of letters and digits is digits in upper case, and the same digits in lower case. -/
theorem exists_digits_of_all {body : List Char} (h : body.all isCidCharacter = true) :
    ∃ vs : List Nat, (∀ v ∈ vs, v < 32) ∧ upperAscii body = vs.map upperDigit ∧
      body.map Char.toLower = vs.map digit := by
  induction body with
  | nil => exact ⟨[], nofun, rfl, rfl⟩
  | cons c body ih =>
    rw [List.all_cons, Bool.and_eq_true] at h
    obtain ⟨v, hv, hupper, hlower⟩ := exists_digit_of_isCidCharacter h.1
    obtain ⟨vs, hvs, huppers, hlowers⟩ := ih h.2
    refine ⟨v :: vs, List.forall_mem_cons.mpr ⟨hv, hvs⟩, ?_, ?_⟩
    · rw [upperAscii, List.flatMap_cons, hupper, ← upperAscii, huppers]
      rfl
    · rw [List.map_cons, hlower, hlowers]
      rfl

/-- A text that is digits in lower case has only characters of an identifier. -/
theorem all_isCidCharacter_of_map_toLower {body : List Char} {vs : List Nat}
    (hvs : ∀ v ∈ vs, v < 32) (h : body.map Char.toLower = vs.map digit) :
    body.all isCidCharacter = true := by
  rw [List.all_eq_true]
  intro c hc
  have hmem : c.toLower ∈ vs.map digit := h ▸ List.mem_map_of_mem hc
  obtain ⟨v, hv, heq⟩ := List.mem_map.mp hmem
  exact isCidCharacter_of_toLower (hvs v hv) heq.symm

/-- Digits are told apart from one another and from padding. -/
theorem eq_of_map_upperDigit_eq {us vs : List Nat} (hus : ∀ v ∈ us, v < 32)
    (hvs : ∀ v ∈ vs, v < 32) {padding : Nat}
    (h : us.map upperDigit = vs.map upperDigit ++ List.replicate padding '=') : us = vs := by
  -- The values are read off the digits, and none off the padding.
  have hvalues : ∀ ws : List Nat, (∀ v ∈ ws, v < 32) →
      (ws.map upperDigit).filterMap value? = ws := by
    intro ws hws
    rw [List.filterMap_map]
    calc ws.filterMap (value? ∘ upperDigit) = ws.filterMap some :=
          List.filterMap_congr fun v hv => value?_upperDigit (hws v hv)
      _ = ws := List.filterMap_some
  have hpadding : (List.replicate padding '=').filterMap value? = [] := by
    rw [List.filterMap_eq_nil_iff]
    intro c hc
    rw [List.eq_of_mem_replicate hc]
    rfl
  calc us = (us.map upperDigit).filterMap value? := (hvalues us hus).symm
    _ = (vs.map upperDigit).filterMap value? ++ (List.replicate padding '=').filterMap value? := by
      rw [h, List.filterMap_append]
    _ = vs := by rw [hvalues vs hvs, hpadding, List.append_nil]

/-! ## Content identifiers -/

/-- The text with the ASCII letters after its first character in lower case. -/
def lowered (s : String) : String :=
  String.ofList (s.toList.take 1 ++ (s.toList.drop 1).map Char.toLower)

/-- The body of a content identifier in upper case consists of digits, given by their values, and
padding, which fill whole groups. -/
structure IsSpelled (body : List Char) (vs : List Nat) (padding : Nat) : Prop where
  digits_lt : ∀ v ∈ vs, v < 32
  upper_eq : upperAscii body = vs.map upperDigit ++ List.replicate padding '='
  fills : fillsUp vs.length padding

/-- A body is spelled as it is written exactly if it has letters and digits only, and its last digit
no unused bits. -/
theorem map_toLower_eq_iff {body : List Char} {vs : List Nat} {padding : Nat}
    (h : IsSpelled body vs padding) :
    body.map Char.toLower = (clearUnused vs).map digit ↔
      body.all isCidCharacter = true ∧ clearUnused vs = vs := by
  have hdigits := h.digits_lt
  constructor
  · intro heq
    have hall := all_isCidCharacter_of_map_toLower (clearUnused_lt hdigits) heq
    obtain ⟨us, hus, hupper, hlower⟩ := exists_digits_of_all hall
    obtain rfl := eq_of_map_upperDigit_eq hus hdigits (hupper.symm.trans h.upper_eq)
    -- The same digits are written in lower case with and without the unused bits.
    have hdigit : (clearUnused us).map digit = us.map digit := heq.symm.trans hlower
    have hsame : (clearUnused us).map upperDigit = us.map upperDigit ++ List.replicate 0 '=' := by
      rw [← upperAscii_map_digit (clearUnused_lt hus), hdigit, upperAscii_map_digit hus]
      simp
    exact ⟨hall, eq_of_map_upperDigit_eq (clearUnused_lt hus) hus hsame⟩
  · rintro ⟨hall, hclear⟩
    obtain ⟨us, hus, hupper, hlower⟩ := exists_digits_of_all hall
    rw [hlower, hclear, eq_of_map_upperDigit_eq hus hdigits (hupper.symm.trans h.upper_eq)]

/-- A text is read as an identifier exactly if its body spells the bytes of the content
identifier. -/
theorem readCid_eq_ok_iff {s : String} {p : PeerId} :
    readCid s = .ok p ↔ ∃ (body : List Char) (vs : List Nat) (padding : Nat),
      s.toList = 'b' :: body ∧ IsSpelled body vs padding ∧ readBytes p.multihash = .ok p ∧
      Base32.encode p.cidBytes = (clearUnused vs).map digit := by
  constructor
  · intro h
    rw [readCid] at h
    split at h
    next body hbody =>
      split at h
      next => cases h
      next b hb =>
        obtain ⟨vs, padding, hvs, hupper, hfills, rfl⟩ := decode_eq_ok_iff.mp hb
        obtain ⟨hbytes, hcid⟩ := readCidBytes_eq_ok_iff.mp h
        refine ⟨body, vs, padding, hbody, ⟨hvs, hupper, hfills⟩, hbytes, ?_⟩
        rw [← hcid, encode_bytesOf hvs hfills]
    next => cases h
  · rintro ⟨body, vs, padding, hbody, ⟨hvs, hupper, hfills⟩, hbytes, hcid⟩
    have hb : p.cidBytes = bytesOf vs := by
      rw [← encode_bytesOf hvs hfills] at hcid
      exact Base32.encode_injective hcid
    rw [readCid, hbody]
    simp only [hupper, decode_append_padding hvs hfills]
    exact readCidBytes_eq_ok_iff.mpr ⟨hbytes, hb.symm⟩

/-- The texts that are read as an identifier, and how they differ from the one that is written. A
text is read as `p` exactly if it is `b` and then, in upper case, base-32 digits and padding that
fill whole groups, where `p` is an identifier whose own text has the same digits but for zeros in
the unused bits of the last one. Then the text is that of `p` up to the case of ASCII letters
exactly if the body has letters and digits only and zeros for the unused bits. Any other text is an
error of parsing. -/
theorem ofCid_spelling (s : String) :
    (∀ p : PeerId, ofCid s = .ok p ↔
      ∃ (body : List Char) (vs : List Nat) (padding : Nat), s.toList = 'b' :: body ∧
        IsSpelled body vs padding ∧ readBytes p.multihash = .ok p ∧
        p.toCid.toList = 'b' :: (clearUnused vs).map digit ∧
        (lowered s = p.toCid ↔ body.all isCidCharacter = true ∧ clearUnused vs = vs)) ∧
    ((∃ p, ofCid s = .ok p) ∨ ∃ message, ofCid s = .error (.parse message)) := by
  have hform : ∀ p : PeerId, p.toCid.toList = 'b' :: Base32.encode p.cidBytes := by
    intro p
    rw [toCid, String.toList_ofList]
  refine ⟨fun p => ?_, ?_⟩
  · rw [ofCid, mapError_eq_ok_iff, readCid_eq_ok_iff]
    constructor
    · rintro ⟨body, vs, padding, hbody, hspelled, hbytes, hcid⟩
      refine ⟨body, vs, padding, hbody, hspelled, hbytes, by rw [hform, hcid], ?_⟩
      rw [← map_toLower_eq_iff hspelled, lowered, hbody, toCid, String.ofList_inj, hcid]
      simp
    · rintro ⟨body, vs, padding, hbody, hspelled, hbytes, hcid, -⟩
      rw [hform, List.cons.injEq] at hcid
      exact ⟨body, vs, padding, hbody, hspelled, hbytes, hcid.2⟩
  · rw [ofCid]
    cases readCid s with
    | ok p => exact .inl ⟨p, rfl⟩
    | error fault => exact .inr ⟨fault.message, rfl⟩

/-- Three texts that are read as identifiers and differ from the texts of these by more than the
case of letters, one for each difference: padding, unused bits that are not zero, and a letter
outside ASCII. -/
theorem ofCid_other_spellings :
    (ofCid "bafzaaaa=" = .ok ⟨[0, 0]⟩ ∧ lowered "bafzaaaa=" ≠ (⟨[0, 0]⟩ : PeerId).toCid) ∧
    (ofCid "bafzaaab" = .ok ⟨[0, 0]⟩ ∧ lowered "bafzaaab" ≠ (⟨[0, 0]⟩ : PeerId).toCid) ∧
    (ofCid "bafzaaaiſ" = .ok ⟨[0, 1, 0x12]⟩ ∧
      lowered "bafzaaaiſ" ≠ (⟨[0, 1, 0x12]⟩ : PeerId).toCid) := by
  have hcid : ∀ b : Bytes, (⟨b⟩ : PeerId).cidBytes = 1 :: 0x72 :: b := by
    intro b
    rw [cidBytes, Varint.encode_of_lt (by decide), Varint.encode_of_lt (by decide)]
    rfl
  simp only [toCid, hcid]
  decide +kernel

end PeerIdentity.PeerId
