import PeerIdentity.Proofs.Decimal
import PeerIdentity.Proofs.Refusal

/-!
# The size of RSA moduli

An RSA modulus has from 2048 up to 8192 binary digits. The configuration, the generation of keys,
and the readers of public keys and of keypairs each check the size at a place of their own, and each
has its own error for it. The public half of a keypair is made from the keypair and checked nowhere
else.

* `Config.load_eq_iff`: what becomes of a value of the environment variable;
* `Rsa.bitLength_of_generate?`: a generated modulus has the size that was asked for;
* `Keypair.generateRsa_of_outside`: the generation refuses other sizes whatever the engine does;
* `ChecksSize`: a reader of keys checks the size of the modulus that the engine has loaded;
* `rsa_sizes_bounded`: no way to an RSA key leads past the limits.
-/

namespace PeerIdentity

/-! ## The configuration -/

namespace Config

/-- The size that a value of the environment variable asks for. Without a value it is 2048. -/
def Requests : (value : Option String) → (bits : Int) → Prop
  | none, bits => bits = 2048
  | some text, bits => Decimal.Writes text bits

/-- A configuration is given by its size. -/
theorem eq_of_rsaBits_eq {c d : Config} (h : c.rsaBits = d.rsaBits) : c = d := by
  cases c
  cases h
  rfl

/-- A value that writes an integer is accepted exactly if the integer is in range. -/
theorem load_of_writes {text : String} {v : Int} (h : Decimal.Writes text v) :
    (∃ config, load (some text) = .ok config ∧ (config.rsaBits : Int) = v) ∨
      (v < 2048 ∨ 8192 < v) ∧ load (some text) = .error (.outOfRange v) := by
  unfold load
  simp only [Decimal.readInteger?_eq_some_iff.mpr h]
  -- The bounds are those of a natural number, which is the integer unless that is negative.
  by_cases hrange : 0 ≤ v ∧ minRsaBits ≤ v.toNat ∧ v.toNat ≤ maxRsaBits
  · rw [dif_pos hrange]
    exact .inl ⟨_, rfl, Int.toNat_of_nonneg hrange.1⟩
  · rw [dif_neg hrange]
    simp only [minRsaBits, maxRsaBits] at hrange
    exact .inr ⟨by omega, rfl⟩

/-- A text that writes no integer is refused, and the fault quotes it. -/
theorem load_of_not_writes {text : String} (h : ∀ v, ¬ Decimal.Writes text v) :
    load (some text) = .error (.notInteger text) := by
  rw [load, Decimal.readInteger?_eq_none_iff.mpr h]

/-- What a value of the environment variable leads to: a configuration with the size that it asks
for, or a fault that says why there is none. -/
def LeadsTo (value : Option String) : (outcome : Except Fault Config) → Prop
  | .ok config => Requests value config.rsaBits ∧ 2048 ≤ config.rsaBits ∧ config.rsaBits ≤ 8192
  | .error (.outOfRange bits) => Requests value bits ∧ (bits < 2048 ∨ 8192 < bits)
  | .error (.notInteger text) => value = some text ∧ ∀ bits, ¬ Requests value bits

/-- What is loaded is what the value of the variable leads to. -/
theorem leadsTo_load (value : Option String) : LeadsTo value (load value) := by
  cases value with
  | none => exact ⟨rfl, by decide⟩
  | some text =>
    by_cases hwrites : ∃ v, Decimal.Writes text v
    · obtain ⟨v, hv⟩ := hwrites
      obtain ⟨config, hload, rfl⟩ | ⟨hrange, hload⟩ := load_of_writes hv <;> rw [hload]
      · exact ⟨hv, config.min_le, config.le_max⟩
      · exact ⟨hv, hrange⟩
    · rw [load_of_not_writes (not_exists.mp hwrites)]
      exact ⟨rfl, not_exists.mp hwrites⟩

/-- A value of the variable leads to one outcome only. -/
theorem load_of_leadsTo {value : Option String} {outcome : Except Fault Config}
    (h : LeadsTo value outcome) : load value = outcome := by
  -- A text writes one integer, and this one is in range or is not.
  cases value with
  | none =>
    match outcome, h with
    | .ok config, ⟨hbits, _⟩ =>
      exact congrArg Except.ok (eq_of_rsaBits_eq (Int.ofNat_inj.mp hbits.symm))
    | .error (.outOfRange bits), ⟨hbits, hrange⟩ =>
      have : bits = 2048 := hbits
      omega
  | some text =>
    match outcome, h with
    | .ok config, ⟨hbits, hrange⟩ =>
      obtain ⟨config', hload, heq⟩ | ⟨hout, -⟩ := load_of_writes hbits
      · rw [hload, eq_of_rsaBits_eq (Int.ofNat_inj.mp heq)]
      · omega
    | .error (.outOfRange bits), ⟨hbits, hrange⟩ =>
      obtain ⟨config, -, rfl⟩ | ⟨-, hload⟩ := load_of_writes hbits
      · have hmin : 2048 ≤ config.rsaBits := config.min_le
        have hmax : config.rsaBits ≤ 8192 := config.le_max
        omega
      · exact hload
    | .error (.notInteger _), ⟨rfl, hnone⟩ => exact load_of_not_writes hnone

/-- A value leads to one outcome, and this is what becomes of it. -/
theorem load_eq_iff {value : Option String} {outcome : Except Fault Config} :
    load value = outcome ↔ LeadsTo value outcome := by
  constructor
  · rintro rfl
    exact leadsTo_load value
  · exact load_of_leadsTo

end Config

/-! ## Generated moduli -/

namespace Rsa

/-- The numbers of `bits` binary digits of which the highest two are set. -/
def HasTopDigits (bits n : Nat) : Prop :=
  3 * 2 ^ (bits - 2) ≤ n ∧ n < 2 ^ bits

/-- The search goes upwards. -/
theorem le_of_findPrime? {accept : Nat → Bool} {fuel n p : Nat}
    (h : findPrime? accept fuel n = some p) : n ≤ p := by
  induction fuel generalizing n with
  | zero => cases h
  | succ fuel ih =>
    rw [findPrime?] at h
    split at h
    · cases h
      exact Nat.le_refl _
    · exact Nat.le_of_add_right_le (ih h)

/-- A prime that random bytes lead to has the highest two of its digits set. -/
theorem hasTopDigits_of_primeFrom? {bits p : Nat} {random : Bytes}
    (h : primeFrom? bits random = some p) : HasTopDigits bits p := by
  unfold primeFrom? at h
  dsimp only at h
  split at h
  next hfind =>
    rw [Option.ite_none_right_eq_some] at h
    obtain ⟨hlt, ⟨⟩⟩ := h
    -- The lower bound is that of the search, the upper one is checked afterwards.
    have hle := le_of_findPrime? hfind
    rw [Nat.shiftLeft_eq] at hle
    rw [Nat.one_shiftLeft] at hlt
    exact ⟨by omega, hlt⟩
  next => cases h

/-- A prime of a seed has the highest two of its digits set, after any number of attempts. -/
theorem hasTopDigits_of_primeFromBlocks? {bits p attempts : Nat} {seed : Bytes}
    (h : primeFromBlocks? bits seed attempts = some p) : HasTopDigits bits p := by
  induction attempts with
  | zero => cases h
  | succ attempts ih =>
    rw [primeFromBlocks?] at h
    -- The prime is from this block, or from one of those after it.
    split at h
    next hp =>
      cases h
      exact hasTopDigits_of_primeFrom? hp
    next => exact ih h

/-- The product of two numbers whose highest two digits are set has the digits of both. -/
theorem bitLength_mul {a b p q : Nat} (ha : 2 ≤ a) (hb : 2 ≤ b) (hp : HasTopDigits a p)
    (hq : HasTopDigits b q) : Bytes.bitLength (p * q) = a + b := by
  obtain ⟨a, rfl⟩ := Nat.exists_eq_add_of_le' ha
  obtain ⟨b, rfl⟩ := Nat.exists_eq_add_of_le' hb
  have hupper : p * q < 2 ^ (a + 2 + (b + 2)) := by
    rw [pow_add]
    exact Nat.mul_lt_mul'' hp.2 hq.2
  -- Three quarters of one power times three quarters of another are more than half of the product.
  have hlower : 2 ^ (a + b + 3) ≤ p * q :=
    calc 2 ^ (a + b + 3) = 8 * (2 ^ a * 2 ^ b) := by ring
      _ ≤ 9 * (2 ^ a * 2 ^ b) := Nat.mul_le_mul_right _ (by decide)
      _ = 3 * 2 ^ a * (3 * 2 ^ b) := by ring
      _ ≤ p * q := Nat.mul_le_mul hp.1 hq.1
  have hle := Bytes.bitLength_le_iff.mpr hupper
  have hgt : ¬ Bytes.bitLength (p * q) ≤ a + b + 3 := by
    rw [Bytes.bitLength_le_iff]
    exact Nat.not_lt.mpr hlower
  omega

/-- A generated modulus has the size that was asked for. -/
theorem bitLength_of_generate? {bits : Nat} {entropy : Bytes} {numbers : PrivateNumbers}
    (hbits : 4 ≤ bits) (h : generate? bits entropy = some numbers) :
    Bytes.bitLength numbers.n = bits := by
  simp only [generate?, PrivateNumbers.ofPrimes?, Option.bind_eq_bind, Option.bind_eq_some_iff] at h
  obtain ⟨p, hp, q, hq, _, -, _, -, ⟨⟩⟩ := h
  -- The digits are split into halves, and the first prime gets the odd one.
  have hlength := bitLength_mul (by omega) (by omega) (hasTopDigits_of_primeFromBlocks? hp)
    (hasTopDigits_of_primeFromBlocks? hq)
  exact hlength.trans (by omega)

/-- The keypair of some numbers has these numbers. -/
theorem Keypair.numbers_of_ofNumbers {numbers : PrivateNumbers} {k : Keypair}
    (h : ofNumbers numbers = .ok k) : k.numbers = numbers := by
  unfold ofNumbers at h
  split at h
  next =>
    split at h
    next =>
      cases h
      rfl
    next => cases h
  next => cases h

/-- The modulus of a generated keypair has as many bits as were asked for. -/
theorem Keypair.bitLength_of_generate? {bits : Nat} {entropy : Bytes} {k : Keypair}
    (hbits : 4 ≤ bits) (h : generate? bits entropy = some k) :
    Bytes.bitLength k.numbers.n = bits := by
  simp only [generate?, Option.bind_eq_bind, Option.bind_eq_some_iff] at h
  obtain ⟨numbers, hnumbers, hk⟩ := h
  rw [numbers_of_ofNumbers (toOption_eq_some_iff.mp hk)]
  exact Rsa.bitLength_of_generate? hbits hnumbers

end Rsa

/-! ## The moduli of keys -/

/-- The modulus of a public key, if it is one of RSA. -/
def PublicKey.modulus? : PublicKey → Option Nat
  | rsa k => some k.n
  | _ => none

/-- The modulus of a keypair, if it is one of RSA. -/
def Keypair.modulus? : Keypair → Option Nat
  | rsa k => some k.numbers.n
  | _ => none

/-- The two halves of a keypair have one modulus. -/
theorem Keypair.modulus?_publicKey (k : Keypair) : k.publicKey.modulus? = k.modulus? := by
  cases k <;> rfl

/-- The modulus of the RSA key that the engine loads from a public key structure. -/
def PublicKeyInfo.modulus? (b : Bytes) : Option Nat :=
  match decode? b with
  | some (rsa n _) => some n
  | _ => none

/-- The modulus of the RSA key that the engine loads from a private key structure. -/
def PrivateKeyInfo.modulus? (b : Bytes) : Option Nat :=
  match decode? b with
  | some (rsa numbers) => some numbers.n
  | _ => none

/-- The modulus of the RSA key that the engine loads from the data of an envelope. -/
def Envelope.modulus? (loaded? : Bytes → Option Nat) (b : Bytes) : Option Nat :=
  match decode b with
  | .ok ⟨.rsa, data⟩ => loaded? data
  | _ => none

/-! ## Readers -/

/-- The message for a modulus out of range names its size and the range. -/
theorem KeyFault.message_modulusSize (bits : Nat) :
    (modulusSize bits minRsaBits maxRsaBits).message =
      s!"{bits}-bit modulus outside [2048, 8192]" := by
  have hrange : "-bit modulus outside [2048, 8192]" =
      "-bit modulus outside [" ++ toString minRsaBits ++ ", " ++ toString maxRsaBits ++ "]" := by
    decide
  unfold message
  simp only [toString, hrange, String.append_assoc]

section Readers

variable {α : Type}

/-- A reader of keys checks the size of the modulus that the engine has loaded. -/
structure ChecksSize (loaded? : Bytes → Option Nat) (modulus? : α → Option Nat)
    (read : Bytes → Except IdentityError α) : Prop where
  /-- An RSA key has the modulus that was loaded, and one in range. -/
  sized (b : Bytes) (k : α) (n : Nat) : read b = .ok k → modulus? k = some n →
    loaded? b = some n ∧ 2048 ≤ Bytes.bitLength n ∧ Bytes.bitLength n ≤ 8192
  /-- A modulus in range is accepted, unless its key is written in another form than its own. -/
  accepted (b : Bytes) (n : Nat) : loaded? b = some n →
    2048 ≤ Bytes.bitLength n → Bytes.bitLength n ≤ 8192 →
      (∃ k, read b = .ok k ∧ modulus? k = some n) ∨
        read b = .error (.decoding (some .rsa) "non-canonical SubjectPublicKeyInfo")
  /-- A modulus out of range is refused for its size. -/
  refused (b : Bytes) (n : Nat) : loaded? b = some n →
    Bytes.bitLength n < 2048 ∨ 8192 < Bytes.bitLength n →
      read b = .error
        (.decoding (some .rsa) s!"{Bytes.bitLength n}-bit modulus outside [2048, 8192]")

/-- A reader of data checks the size if a key has the loaded modulus, and if the fault of a loaded
modulus that is not in range is its size. -/
theorem ChecksSize.of_faults {loaded? : Bytes → Option Nat} {modulus? : α → Option Nat}
    {read : Bytes → Except KeyFault α}
    (hread : ∀ {b k n}, read b = .ok k → modulus? k = some n → loaded? b = some n ∧ Rsa.IsSized n)
    (hloaded : ∀ {b n}, loaded? b = some n →
      Rsa.IsSized n ∧ (∃ k, read b = .ok k ∧ modulus? k = some n) ∨
      Rsa.IsSized n ∧ read b = .error .nonCanonical ∨
      ¬ Rsa.IsSized n ∧ read b = .error (Rsa.sizeFault n)) :
    ChecksSize loaded? modulus? fun b => (read b).mapError (KeyFault.toError .rsa) where
  sized b k n hk hn := hread (mapError_eq_ok_iff.mp hk) hn
  accepted b n hn hmin hmax := by
    obtain ⟨-, k, hk, hkn⟩ | ⟨-, hfault⟩ | ⟨hsized, -⟩ := hloaded hn
    · exact .inl ⟨k, mapError_eq_ok_iff.mpr hk, hkn⟩
    · exact .inr (congrArg (·.mapError (KeyFault.toError .rsa)) hfault)
    · exact absurd ⟨hmin, hmax⟩ hsized
  refused b n hn hrange := by
    have hsized : ¬ Rsa.IsSized n := fun ⟨hmin, hmax⟩ =>
      hrange.elim (Nat.not_lt.mpr hmin) (Nat.not_lt.mpr hmax)
    obtain ⟨h, -⟩ | ⟨h, -⟩ | ⟨-, hfault⟩ := hloaded hn
    · exact absurd h hsized
    · exact absurd h hsized
    · rw [hfault, mapError_error]
      exact congrArg _ (congrArg _ (KeyFault.message_modulusSize _))

/-- The engine loads a modulus from an envelope exactly if it does from the data of an RSA key in
it. -/
theorem Envelope.modulus?_eq_some_iff {loaded? : Bytes → Option Nat} {b : Bytes} {n : Nat} :
    modulus? loaded? b = some n ↔ ∃ data, decode b = .ok ⟨.rsa, data⟩ ∧ loaded? data = some n := by
  unfold modulus?
  split <;> simp_all

/-- A reader in two layers checks the size if the reader of RSA data does. -/
theorem ChecksSize.of_layers {loaded? : Bytes → Option Nat} {modulus? : α → Option Nat}
    {typeOf : α → KeyType} {ofRaw : KeyType → Bytes → Except IdentityError α}
    {decode : Bytes → Except IdentityError α} (h : ChecksSize loaded? modulus? (ofRaw .rsa))
    (hlayers : ReadsLayers typeOf ofRaw decode)
    (htype : ∀ {k n}, modulus? k = some n → typeOf k = .rsa) :
    ChecksSize (Envelope.modulus? loaded?) modulus? decode where
  sized b k n hdecode hn := by
    obtain ⟨data, henvelope, hraw⟩ := hlayers.eq_ok_iff.mp hdecode
    -- A key with a modulus is one of RSA, and so the envelope names RSA.
    rw [htype hn] at henvelope hraw
    obtain ⟨hloaded, hsize⟩ := h.sized data k n hraw hn
    exact ⟨Envelope.modulus?_eq_some_iff.mpr ⟨data, henvelope, hloaded⟩, hsize⟩
  accepted b n hloaded hmin hmax := by
    obtain ⟨data, henvelope, hdata⟩ := Envelope.modulus?_eq_some_iff.mp hloaded
    rw [hlayers.of_ok henvelope]
    exact h.accepted data n hdata hmin hmax
  refused b n hloaded hrange := by
    obtain ⟨data, henvelope, hdata⟩ := Envelope.modulus?_eq_some_iff.mp hloaded
    rw [hlayers.of_ok henvelope]
    exact h.refused data n hdata hrange

end Readers

/-- The reader of public key structures, case by case. -/
theorem Rsa.PublicKey.decode_of_modulus? {b : Bytes} {n : Nat}
    (h : PublicKeyInfo.modulus? b = some n) :
    IsSized n ∧ (∃ k, decode b = .ok k ∧ k.n = n) ∨
      IsSized n ∧ decode b = .error .nonCanonical ∨
      ¬ IsSized n ∧ decode b = .error (sizeFault n) := by
  unfold PublicKeyInfo.modulus? at h
  split at h
  next n' e hload =>
    cases h
    unfold decode
    simp only [hload]
    -- The size is checked before the written form.
    by_cases hsized : IsSized n
    · by_cases hcanonical : PublicKeyInfo.encodeRsa n e = b
      · simp [hsized, hcanonical]
      · simp [hsized, hcanonical]
    · simp [hsized]
  next => cases h

/-- A public key has the modulus that the engine has loaded. -/
theorem Rsa.PublicKey.modulus?_of_decode {b : Bytes} {k : PublicKey} (h : decode b = .ok k) :
    PublicKeyInfo.modulus? b = some k.n := by
  unfold decode at h
  split at h
  next => cases h
  next hload =>
    split at h
    next =>
      split at h
      next =>
        cases h
        rw [PublicKeyInfo.modulus?, hload]
      next => cases h
    next => cases h
  next => cases h

/-- The reader of private key structures, case by case. -/
theorem Rsa.Keypair.decode_of_modulus? {b : Bytes} {n : Nat}
    (h : PrivateKeyInfo.modulus? b = some n) :
    IsSized n ∧ (∃ k, decode b = .ok k ∧ k.numbers.n = n) ∨
      ¬ IsSized n ∧ decode b = .error (sizeFault n) := by
  unfold PrivateKeyInfo.modulus? at h
  split at h
  next numbers hload =>
    cases h
    -- Numbers that were loaded are consistent, so nothing but the size can be wrong with them.
    have hconsistent := PrivateKeyInfo.isConsistent_of_decode? hload
    unfold decode
    simp only [hload, ofNumbers, hconsistent, dite_true]
    by_cases hsized : IsSized numbers.n
    · simp [hsized]
    · simp [hsized]
  next => cases h

/-- A keypair has the modulus that the engine has loaded. -/
theorem Rsa.Keypair.modulus?_of_decode {b : Bytes} {k : Keypair} (h : decode b = .ok k) :
    PrivateKeyInfo.modulus? b = some k.numbers.n := by
  unfold decode at h
  split at h
  next => cases h
  next hload => rw [PrivateKeyInfo.modulus?, hload, numbers_of_ofNumbers h]
  next => cases h

/-- The reader of public RSA keys checks the size of the modulus. -/
theorem PublicKey.checksSize_ofRaw : ChecksSize PublicKeyInfo.modulus? modulus? (ofRaw .rsa) := by
  refine .of_faults (fun {b k n} hk hn => ?_) (fun {b n} hn => ?_)
  · obtain ⟨r, hr, rfl⟩ := map_eq_ok_iff.mp hk
    obtain rfl : r.n = n := Option.some.inj hn
    exact ⟨Rsa.PublicKey.modulus?_of_decode hr, r.sized⟩
  · rw [readRaw]
    obtain ⟨hsized, r, hr, rfl⟩ | ⟨hsized, hr⟩ | ⟨hsized, hr⟩ :=
      Rsa.PublicKey.decode_of_modulus? hn <;> rw [hr]
    · exact .inl ⟨hsized, rsa r, rfl, rfl⟩
    · exact .inr (.inl ⟨hsized, rfl⟩)
    · exact .inr (.inr ⟨hsized, rfl⟩)

/-- The reader of RSA keypairs checks the size of the modulus. -/
theorem Keypair.checksSize_ofRaw : ChecksSize PrivateKeyInfo.modulus? modulus? (ofRaw .rsa) := by
  refine .of_faults (fun {b k n} hk hn => ?_) (fun {b n} hn => ?_)
  · obtain ⟨r, hr, rfl⟩ := map_eq_ok_iff.mp hk
    obtain rfl : r.numbers.n = n := Option.some.inj hn
    exact ⟨Rsa.Keypair.modulus?_of_decode hr, r.sized⟩
  · rw [readRaw]
    obtain ⟨hsized, r, hr, rfl⟩ | ⟨hsized, hr⟩ := Rsa.Keypair.decode_of_modulus? hn <;> rw [hr]
    · exact .inl ⟨hsized, rsa r, rfl, rfl⟩
    · exact .inr (.inr ⟨hsized, rfl⟩)

/-- Only public keys of RSA have a modulus. -/
theorem PublicKey.keyType_of_modulus? {k : PublicKey} {n : Nat} (h : k.modulus? = some n) :
    k.keyType = .rsa := by
  cases k with
  | rsa => rfl
  | _ => cases h

/-- Only keypairs of RSA have a modulus. -/
theorem Keypair.keyType_of_modulus? {k : Keypair} {n : Nat} (h : k.modulus? = some n) :
    k.keyType = .rsa := by
  cases k with
  | rsa => rfl
  | _ => cases h

/-- The reader of envelopes of public keys checks the size of the modulus. -/
theorem PublicKey.checksSize_decode :
    ChecksSize (Envelope.modulus? PublicKeyInfo.modulus?) modulus? decode :=
  checksSize_ofRaw.of_layers readsLayers keyType_of_modulus?

/-- The reader of envelopes of keypairs checks the size of the modulus. -/
theorem Keypair.checksSize_decode :
    ChecksSize (Envelope.modulus? PrivateKeyInfo.modulus?) modulus? decode :=
  checksSize_ofRaw.of_layers readsLayers keyType_of_modulus?

/-! ## Generation -/

namespace Keypair

/-- An RSA keypair of a size within the limits. The public half is of that size too. -/
def HasSize (k : Keypair) (bits : Int) : Prop :=
  ∃ n, k.modulus? = some n ∧ k.publicKey.modulus? = some n ∧ (Bytes.bitLength n : Int) = bits ∧
    2048 ≤ bits ∧ bits ≤ 8192

/-- A generated RSA keypair has a modulus of the size that was asked for. -/
theorem hasSize_of_generateRsa {bits : Int} {randomness : Randomness} {k : Keypair}
    (h : generateRsa bits randomness = .ok k) : k.HasSize bits := by
  unfold generateRsa at h
  split at h
  next hrange =>
    simp only [minRsaBits, maxRsaBits] at hrange
    -- A keypair comes from the engine only, and the engine was given this size.
    cases randomness with
    | error fault => cases h
    | ok entropy =>
      dsimp only [generated] at h
      split at h
      next hk =>
        cases h
        obtain ⟨r, hr, rfl⟩ := Option.map_eq_some_iff.mp hk
        have hbits := Rsa.Keypair.bitLength_of_generate? (by omega) hr
        exact ⟨r.numbers.n, rfl, rfl, by omega, hrange.1, hrange.2⟩
      next => cases h
  next => cases h

/-- Other sizes are refused before anything random is drawn or an engine is asked. -/
theorem generateRsa_of_outside {bits : Int} (h : bits < 2048 ∨ 8192 < bits)
    (randomness : Randomness) : generateRsa bits randomness =
      .error (.identity (.generation .rsa s!"unsupported modulus size {bits}")) := by
  refine if_neg fun hrange => ?_
  simp only [minRsaBits, maxRsaBits] at hrange
  omega

/-- A size within the limits gets as far as the engine, whose fault shows. -/
theorem generateRsa_of_fault {bits : Int} (hmin : 2048 ≤ bits) (hmax : bits ≤ 8192)
    (fault : EngineFault) : generateRsa bits (.error fault) =
      .error (.identity (.generation .rsa s!"engine failure: {fault.text}")) :=
  if_pos ⟨hmin, hmax⟩

/-- Without a size, the one of the configuration is taken. -/
theorem generate_rsa (config : Config) (randomness : Randomness) :
    generate config .rsa randomness = generateRsa config.rsaBits randomness := by
  have hmin : 2048 ≤ config.rsaBits := config.min_le
  have hmax : config.rsaBits ≤ 8192 := config.le_max
  refine (if_pos ⟨?_, ?_⟩).symm
  · exact Int.ofNat_le.mpr hmin
  · exact Int.ofNat_le.mpr hmax

/-- A keypair that is generated with a configuration has a modulus of its size, if any. -/
theorem hasSize_of_generate {config : Config} {t : KeyType} {randomness : Randomness} {k : Keypair}
    (h : generate config t randomness = .ok k) {n : Nat} (hn : k.modulus? = some n) :
    k.HasSize config.rsaBits := by
  obtain rfl : t = .rsa := (keyType_of_generate h).symm.trans (keyType_of_modulus? hn)
  rw [generate_rsa] at h
  exact hasSize_of_generateRsa h

end Keypair

/-- No way to an RSA key leads past the limits of its size. A value of the environment variable
either sets a size in range, the one that it writes, or has a fault. A generated keypair has the
size that was set or asked for. Other sizes than those in range are refused whatever the randomness
and its faults, and the engine's faults show for the sizes in range. Public keys and keypairs, bare
and in envelopes, have the modulus of the key that the engine loads, which is in range, and a loaded
modulus that is not is refused with a decoding error for RSA. The public half of a keypair has the
modulus of the keypair. -/
theorem rsa_sizes_bounded :
    (∀ value outcome, Config.load value = outcome ↔ Config.LeadsTo value outcome) ∧
    (∀ config t randomness k n, Keypair.generate config t randomness = .ok k →
      k.modulus? = some n → k.HasSize config.rsaBits) ∧
    (∀ bits randomness k, Keypair.generateRsa bits randomness = .ok k → k.HasSize bits) ∧
    (∀ bits : Int, bits < 2048 ∨ 8192 < bits →
      ∀ randomness, Keypair.generateRsa bits randomness =
        .error (.identity (.generation .rsa s!"unsupported modulus size {bits}"))) ∧
    (∀ bits : Int, 2048 ≤ bits → bits ≤ 8192 →
      ∀ fault : EngineFault, Keypair.generateRsa bits (.error fault) =
        .error (.identity (.generation .rsa s!"engine failure: {fault.text}"))) ∧
    ChecksSize PublicKeyInfo.modulus? PublicKey.modulus? (PublicKey.ofRaw .rsa) ∧
    ChecksSize PrivateKeyInfo.modulus? Keypair.modulus? (Keypair.ofRaw .rsa) ∧
    ChecksSize (Envelope.modulus? PublicKeyInfo.modulus?) PublicKey.modulus? PublicKey.decode ∧
    ChecksSize (Envelope.modulus? PrivateKeyInfo.modulus?) Keypair.modulus? Keypair.decode ∧
    ∀ k : Keypair, k.publicKey.modulus? = k.modulus? :=
  ⟨fun _ _ => Config.load_eq_iff, fun _ _ _ _ _ h hn => Keypair.hasSize_of_generate h hn,
    fun _ _ _ => Keypair.hasSize_of_generateRsa, fun _ => Keypair.generateRsa_of_outside,
    fun _ => Keypair.generateRsa_of_fault, PublicKey.checksSize_ofRaw, Keypair.checksSize_ofRaw,
    PublicKey.checksSize_decode, Keypair.checksSize_decode, Keypair.modulus?_publicKey⟩

/-- The largest size as a text with blanks, a sign and an underscore, a size just below the limits, a
modulus of six binary digits, and a keypair of 2048 bits. -/
theorem rsa_sizes_bounded_at_limits :
    Config.load (some " +8_192\n") = .ok { rsaBits := 8192 } ∧
    Keypair.generateRsa 2047 (.ok []) =
      .error (.identity (.generation .rsa "unsupported modulus size 2047")) ∧
    PublicKey.ofRaw .rsa (PublicKeyInfo.encodeRsa 35 3) =
      .error (.decoding (some .rsa) "6-bit modulus outside [2048, 8192]") ∧
    ∃ k n, Keypair.decode (Keypair.rsa Rsa.largeExponent).encode = .ok k ∧
      k.publicKey.modulus? = some n ∧ 2048 ≤ Bytes.bitLength n ∧ Bytes.bitLength n ≤ 8192 := by
  obtain ⟨hload, -, -, houtside, -, hpublic, -, -, hkeypair, hhalf⟩ := rsa_sizes_bounded
  refine ⟨(hload _ _).mpr ⟨?_, by decide, by decide⟩, ?_, ?_, ?_⟩
  · exact Decimal.readInteger?_eq_some_iff.mp (by decide +kernel)
  · have hmessage : s!"unsupported modulus size {(2047 : Int)}" =
        "unsupported modulus size 2047" := by
      decide
    rw [houtside 2047 (by decide), hmessage]
  · have hmessage : s!"{Bytes.bitLength 35}-bit modulus outside [2048, 8192]" =
        "6-bit modulus outside [2048, 8192]" := by
      decide
    rw [hpublic.refused _ 35 (by decide +kernel) (by decide), hmessage]
  · have hread := (Keypair.rsa Rsa.largeExponent).decode_encode
    obtain ⟨-, hsize⟩ := hkeypair.sized _ _ _ hread rfl
    exact ⟨_, _, hread, hhalf _, hsize⟩

end PeerIdentity
