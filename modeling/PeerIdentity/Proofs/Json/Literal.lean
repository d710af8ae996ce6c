import PeerIdentity.Json.Literal
import PeerIdentity.Proofs.Bytes

/-!
# String literals are read back

Every text is read back from its literal. A character is written in one of three forms, and each is
read as the character: a letter after a backslash, four hexadecimal digits, or the character itself.

* `Json.escapeChar_cases`: the forms;
* `Json.readLiteral_escapeChar_append`: one character is read back, whatever follows;
* `Json.readLiteral_flatMap_escapeChar_append`: all characters up to the closing quote are.
-/

namespace PeerIdentity.Json

variable {c d : Char} {rest : List Char}

/-! ## Forms of a character -/

/-- A backslash and a letter are read as the character that they stand for. -/
theorem readLiteral_of_simpleEscape? (h : simpleEscape? c = some d) :
    readLiteral ('\\' :: c :: rest) = consChar d (readLiteral rest) := by
  -- Only `u` has an equation of its own, and it is the letter of no character.
  have hu : c ≠ 'u' := by
    rintro rfl
    exact absurd h nofun
  rw [readLiteral.eq_def]
  simp [hu, h]

/-- The four digits of a control character are read as the character. -/
theorem readLiteral_control (h : c.toNat < 32) :
    readLiteral ('\\' :: 'u' :: '0' :: '0' :: Bytes.hexDigit (c.toNat / 16) ::
      Bytes.hexDigit (c.toNat % 16) :: rest) = consChar c (readLiteral rest) := by
  have hunit : unit? '0' '0' (Bytes.hexDigit (c.toNat / 16)) (Bytes.hexDigit (c.toNat % 16)) =
      some c.toNat := by
    have hzero : Bytes.hexValue? '0' = some 0 := by decide
    have hhigh := Bytes.hexValue?_hexDigit (show c.toNat / 16 < 16 by omega)
    have hlow := Bytes.hexValue?_hexDigit (show c.toNat % 16 < 16 by omega)
    simp [unit?, hzero, hhigh, hlow, Nat.div_add_mod']
  -- A control character is no half of a pair, so it stands for itself.
  have hlead : isLeading c.toNat = false := by
    simp only [isLeading, Bool.and_eq_false_iff, decide_eq_false_iff_not]
    omega
  have htrail : isTrailing c.toNat = false := by
    simp only [isTrailing, Bool.and_eq_false_iff, decide_eq_false_iff_not]
    omega
  simp [readLiteral, hunit, hlead, htrail]

/-- Other characters than quotes, backslashes and control characters stand for themselves. -/
theorem readLiteral_cons (hquote : c ≠ '"') (hslash : c ≠ '\\') (h : 32 ≤ c.toNat) :
    readLiteral (c :: rest) = consChar c (readLiteral rest) := by
  rw [readLiteral.eq_def]
  simp [hslash, Nat.not_lt.mpr h]

/-- A character is written as a letter after a backslash, as four hexadecimal digits or as it is. -/
theorem escapeChar_cases (c : Char) :
    (∃ d, simpleEscape? d = some c ∧ escapeChar c = ['\\', d]) ∨
    (c.toNat < 32 ∧ escapeChar c =
      ['\\', 'u', '0', '0', Bytes.hexDigit (c.toNat / 16), Bytes.hexDigit (c.toNat % 16)]) ∨
    (c ≠ '"' ∧ c ≠ '\\' ∧ 32 ≤ c.toNat ∧ escapeChar c = [c]) := by
  -- The short escapes are told apart by the code of the character.
  have hchar {n : Nat} (hn : c.toNat = n) : Char.ofNat n = c := by
    rw [← hn, Char.ofNat_toNat]
  unfold escapeChar
  split_ifs with hquote hslash hcontrol
  · exact .inl ⟨'"', congrArg some hquote.symm, rfl⟩
  · exact .inl ⟨'\\', congrArg some hslash.symm, rfl⟩
  · split
    next hn => exact .inl ⟨'b', congrArg some (hchar hn), rfl⟩
    next hn => exact .inl ⟨'t', congrArg some (hchar hn), rfl⟩
    next hn => exact .inl ⟨'n', congrArg some (hchar hn), rfl⟩
    next hn => exact .inl ⟨'f', congrArg some (hchar hn), rfl⟩
    next hn => exact .inl ⟨'r', congrArg some (hchar hn), rfl⟩
    next => exact .inr (.inl ⟨hcontrol, rfl⟩)
  · exact .inr (.inr ⟨hquote, hslash, Nat.not_lt.mp hcontrol, rfl⟩)

/-! ## Reading back -/

/-- What writes a character is read as that character, whatever follows. -/
theorem readLiteral_escapeChar_append (c : Char) (rest : List Char) :
    readLiteral (escapeChar c ++ rest) = consChar c (readLiteral rest) := by
  rcases escapeChar_cases c with ⟨d, hd, h⟩ | ⟨hcontrol, h⟩ | ⟨hquote, hslash, hle, h⟩
  · rw [h]
    exact readLiteral_of_simpleEscape? hd
  · rw [h]
    exact readLiteral_control hcontrol
  · rw [h]
    exact readLiteral_cons hquote hslash hle

/-- Escaped characters are read back up to the closing quote, with what follows it. -/
theorem readLiteral_flatMap_escapeChar_append (s rest : List Char) :
    readLiteral (s.flatMap escapeChar ++ '"' :: rest) = some (s, rest) := by
  induction s with
  | nil => rw [List.flatMap_nil, List.nil_append, readLiteral]
  | cons c s ih =>
    rw [List.flatMap_cons, List.append_assoc, readLiteral_escapeChar_append, ih, consChar]

end PeerIdentity.Json
