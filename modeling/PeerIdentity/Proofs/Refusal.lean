import PeerIdentity.Proofs.Separation

/-!
# Refusals of encoded keys

Keys and keypairs are read in two layers. The envelope is read first, and then its data, by the
reader of the type that the envelope names. An error tells which layer refused the bytes: it names
a key type exactly if the envelope was read, and that type is the one in the envelope.

* `IdentityError.IsDecoding`: the errors of refused encodings;
* `Envelope.isDecoding_of_decode`: the errors of envelopes, which name no key type;
* `KeyFault.eq_decoding_of_mapError`: the errors of data, which name the type of the reader;
* `KeepsContext`: a reader of keys in envelopes keeps the context of its errors;
* `ReadsLayers.error_cases`: an error of a reader in two layers comes from one of the two;
* `refusals_keep_context`: the readers of public keys and of keypairs do.
-/

namespace PeerIdentity

/-! ## Errors of refused encodings -/

namespace IdentityError

/-- The errors of refused encodings: decoding errors and their special cases. -/
def IsDecoding (e : IdentityError) : Prop :=
  "DecodingError" ∈ e.name :: e.generalizations

instance (e : IdentityError) : Decidable e.IsDecoding :=
  inferInstanceAs (Decidable (_ ∈ _))

/-- A refused encoding is an error of decoding. -/
@[simp]
theorem isDecoding_decoding (t : Option KeyType) (detail : String) :
    (decoding t detail).IsDecoding :=
  List.mem_cons_self

/-- A key type that is not supported is an error of decoding. -/
@[simp]
theorem isDecoding_unsupportedKeyType (code : Option Int) :
    (unsupportedKeyType code).IsDecoding :=
  List.mem_cons_of_mem _ List.mem_cons_self

end IdentityError

/-- The errors of envelopes name no key type. -/
theorem Envelope.isDecoding_of_decode {b : Bytes} {e : IdentityError} (h : decode b = .error e) :
    e.IsDecoding ∧ e.keyType? = none := by
  obtain ⟨_, _, _, h'⟩ | ⟨_, _, _, _, h'⟩ | ⟨_, _, _, _, _, h'⟩ | ⟨_, _, h'⟩ :=
    decode_cases b <;> rw [h] at h' <;> cases h'
  · exact ⟨IdentityError.isDecoding_unsupportedKeyType _, rfl⟩
  · exact ⟨IdentityError.isDecoding_unsupportedKeyType _, rfl⟩
  · exact ⟨IdentityError.isDecoding_decoding _ _, rfl⟩

/-- Every reader of data names its own type when it refuses it. -/
theorem KeyFault.eq_decoding_of_mapError {α : Type} {x : Except KeyFault α} {t : KeyType}
    {e : IdentityError} (h : x.mapError (KeyFault.toError t) = .error e) :
    ∃ detail, e = .decoding (some t) detail := by
  cases x with
  | error fault =>
    cases h
    exact ⟨fault.message, rfl⟩
  | ok a => cases h

/-! ## Readers of keys in envelopes -/

section Readers

variable {α : Type}

/-- A reader of keys in envelopes keeps the context of its errors. The readers `ofRaw` are those of
the data, one for each type. -/
structure KeepsContext (typeOf : α → KeyType) (ofRaw : KeyType → Bytes → Except IdentityError α)
    (decode : Bytes → Except IdentityError α) : Prop where
  /-- A key is of the type in the envelope, and is read from the data in it. -/
  key (b : Bytes) (k : α) : decode b = .ok k ↔
    ∃ data, Envelope.decode b = .ok ⟨typeOf k, data⟩ ∧ ofRaw (typeOf k) data = .ok k
  /-- The errors that name no key type are those of the envelope. -/
  envelope (b : Bytes) (e : IdentityError) :
    decode b = .error e ∧ e.keyType? = none ↔ Envelope.decode b = .error e
  /-- The errors that name a key type are those of the reader of the type in the envelope, for the
  data in it, and they are plain decoding errors. -/
  contents (b : Bytes) (e : IdentityError) (t : KeyType) :
    decode b = .error e ∧ e.keyType? = some t ↔
      ∃ data detail, Envelope.decode b = .ok ⟨t, data⟩ ∧ ofRaw t data = .error e ∧
        e = .decoding (some t) detail
  /-- Nothing but decoding errors escapes. -/
  isDecoding (b : Bytes) (e : IdentityError) : decode b = .error e → e.IsDecoding

/-- A reader in two layers: the envelope is read first, and then its data, by the reader of the type
in the envelope. The readers of data read keys of their types, and name their types in their
errors. -/
structure ReadsLayers (typeOf : α → KeyType) (ofRaw : KeyType → Bytes → Except IdentityError α)
    (decode : Bytes → Except IdentityError α) : Prop where
  of_error {b : Bytes} {e : IdentityError} : Envelope.decode b = .error e → decode b = .error e
  of_ok {b : Bytes} {m : Envelope} :
    Envelope.decode b = .ok m → decode b = ofRaw m.keyType m.data
  keyType {t : KeyType} {data : Bytes} {k : α} : ofRaw t data = .ok k → typeOf k = t
  names {t : KeyType} {data : Bytes} {e : IdentityError} :
    ofRaw t data = .error e → ∃ detail, e = .decoding (some t) detail

namespace ReadsLayers

variable {typeOf : α → KeyType} {ofRaw : KeyType → Bytes → Except IdentityError α}
  {decode : Bytes → Except IdentityError α} (hlayers : ReadsLayers typeOf ofRaw decode)
include hlayers

/-- A key is decoded exactly if its envelope is, and its bytes are by the algorithm of the
envelope. -/
theorem eq_ok_iff {b : Bytes} {k : α} : decode b = .ok k ↔
    ∃ data, Envelope.decode b = .ok ⟨typeOf k, data⟩ ∧ ofRaw (typeOf k) data = .ok k := by
  constructor
  · intro h
    cases henvelope : Envelope.decode b with
    | error e => cases (hlayers.of_error henvelope).symm.trans h
    | ok m =>
      have hraw := (hlayers.of_ok henvelope).symm.trans h
      rw [hlayers.keyType hraw]
      exact ⟨m.data, rfl, hraw⟩
  · rintro ⟨data, henvelope, hraw⟩
    exact (hlayers.of_ok henvelope).trans hraw

/-- An error comes from one of the two layers: from the envelope, and it names no type, or from the
reader of the type in the envelope. -/
theorem error_cases {b : Bytes} {e : IdentityError} (h : decode b = .error e) :
    Envelope.decode b = .error e ∧ e.IsDecoding ∧ e.keyType? = none ∨
      ∃ t data detail, Envelope.decode b = .ok ⟨t, data⟩ ∧ ofRaw t data = .error e ∧
        e = .decoding (some t) detail := by
  cases henvelope : Envelope.decode b with
  | error e' =>
    obtain rfl := Except.error.inj ((hlayers.of_error henvelope).symm.trans h)
    exact .inl ⟨rfl, Envelope.isDecoding_of_decode henvelope⟩
  | ok m =>
    have hraw := (hlayers.of_ok henvelope).symm.trans h
    obtain ⟨detail, rfl⟩ := hlayers.names hraw
    exact .inr ⟨m.keyType, m.data, detail, rfl, hraw, rfl⟩

/-- A reader in two layers keeps the context of its errors. -/
theorem keepsContext : KeepsContext typeOf ofRaw decode where
  key b k := hlayers.eq_ok_iff
  envelope b e := by
    constructor
    · rintro ⟨h, hnone⟩
      obtain ⟨henvelope, -⟩ | ⟨t, data, detail, -, -, rfl⟩ := hlayers.error_cases h
      · exact henvelope
      -- An error of the data would name the type in the envelope.
      · cases hnone
    · intro henvelope
      exact ⟨hlayers.of_error henvelope, (Envelope.isDecoding_of_decode henvelope).2⟩
  contents b e t := by
    constructor
    · rintro ⟨h, hsome⟩
      obtain ⟨-, -, hnone⟩ | ⟨t', data, detail, henvelope, hraw, rfl⟩ := hlayers.error_cases h
      · cases hnone.symm.trans hsome
      · obtain rfl : t' = t := Option.some.inj hsome
        exact ⟨data, detail, henvelope, hraw, rfl⟩
    · rintro ⟨data, detail, henvelope, hraw, rfl⟩
      exact ⟨(hlayers.of_ok henvelope).trans hraw, rfl⟩
  isDecoding b e h := by
    obtain ⟨-, hdecoding, -⟩ | ⟨t, data, detail, -, -, rfl⟩ := hlayers.error_cases h
    · exact hdecoding
    · exact IdentityError.isDecoding_decoding _ _

end ReadsLayers

end Readers

/-! ## Public keys and keypairs -/

/-- Public keys are read in two layers, envelope and algorithm. -/
theorem PublicKey.readsLayers : ReadsLayers keyType ofRaw decode where
  of_error h := by rw [decode, h]
  of_ok h := by rw [decode, h]
  keyType h := (readRaw_eq_ok_iff.mp (mapError_eq_ok_iff.mp h)).2.1
  names h := KeyFault.eq_decoding_of_mapError h

/-- Keypairs are read in two layers, envelope and algorithm. -/
theorem Keypair.readsLayers : ReadsLayers keyType ofRaw decode where
  of_error h := by rw [decode, h]
  of_ok h := by rw [decode, h]
  keyType h := keyType_of_readRaw (mapError_eq_ok_iff.mp h)
  names h := KeyFault.eq_decoding_of_mapError h

/-- Errors of public keys tell in which layer they arose. -/
theorem PublicKey.keepsContext_decode : KeepsContext keyType ofRaw decode :=
  readsLayers.keepsContext

/-- Errors of keypairs tell in which layer they arose. -/
theorem Keypair.keepsContext_decode : KeepsContext keyType ofRaw decode :=
  readsLayers.keepsContext

/-- Reading public keys and keypairs keeps the context of errors. What is read is of the type in the
envelope. Bytes that are no envelope are refused by both readers with the error of the envelope, and
this error and no other names no key type. Every other error is the plain decoding error with which
the reader of the type in the envelope refuses the data, and it names that type. -/
theorem refusals_keep_context :
    KeepsContext PublicKey.keyType PublicKey.ofRaw PublicKey.decode ∧
    KeepsContext Keypair.keyType Keypair.ofRaw Keypair.decode ∧
    ∀ (b : Bytes) (e : IdentityError),
      PublicKey.decode b = .error e ∧ e.keyType? = none ↔
        Keypair.decode b = .error e ∧ e.keyType? = none := by
  refine ⟨PublicKey.keepsContext_decode, Keypair.keepsContext_decode, fun b e => ?_⟩
  rw [PublicKey.keepsContext_decode.envelope, Keypair.keepsContext_decode.envelope]

end PeerIdentity
