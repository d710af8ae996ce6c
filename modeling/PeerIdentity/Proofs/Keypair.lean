import PeerIdentity.Keypair
import PeerIdentity.Proofs.PublicKey

/-!
# Keypairs and their encodings

A keypair of any algorithm is read back from its own envelope, so its type, its encoding, its public
half and its identifier survive. Ed25519, secp256k1 and ML-DSA keypairs have one encoding, which is
the data of every envelope that they are read from; RSA and ECDSA keypairs are read from other
structures too.

The public half travels the same way, but for one case: the public exponent of an RSA keypair may
be as large as the modulus or larger, and the reader of public keys refuses such exponents.

* `Keypair.decode_encode`: every keypair is read back;
* `Keypair.rawBytes_of_readRaw`: the encoding of some is the data that they were read from;
* `Keypair.isReadable_publicKey_iff`: the keypairs whose public half is read back;
* `Keypair.decode_stable`: reading and writing keypairs and their public halves;
* `Rsa.largeExponent`: an RSA keypair whose public half is not read back.
-/

namespace PeerIdentity

/-! ## Algorithms -/

namespace Ed25519.Keypair

/-- The public half is derived, so the secret determines a keypair. -/
theorem eq_of_secret_eq {k l : Keypair} (h : k.secret = l.secret) : k = l := by
  obtain ⟨secret, ⟨bytes, _⟩, _, hbytes⟩ := k
  obtain ⟨_, ⟨_, _⟩, _, hbytes'⟩ := l
  obtain rfl := h
  obtain rfl := hbytes.trans hbytes'.symm
  rfl

/-- A keypair is made again from its secret. -/
theorem ofSecret_secret (k : Keypair) : ofSecret k.secret = .ok k := by
  rw [ofSecret, dif_pos k.length_secret]
  exact congrArg Except.ok (eq_of_secret_eq rfl)

/-- The keypair of a secret has this secret. -/
theorem secret_of_ofSecret {secret : Bytes} {k : Keypair} (h : ofSecret secret = .ok k) :
    k.secret = secret := by
  unfold ofSecret at h
  split at h
  next =>
    cases h
    rfl
  next => cases h

/-- The encoding has the secret and the public key in it, and nothing else. -/
theorem length_encode (k : Keypair) : k.encode.length = secretLength + publicKeyLength := by
  rw [encode, List.length_append, k.length_secret, k.publicKey.length_bytes]

/-- The bytes that are read as a keypair are its encoding, and no others. -/
theorem decode_eq_ok_iff {b : Bytes} {k : Keypair} : decode b = .ok k ↔ k.encode = b := by
  constructor
  · intro h
    unfold decode at h
    split at h
    next =>
      split at h
      next => cases h
      next k' hsecret =>
        split at h
        next hpublic =>
          cases h
          rw [encode, secret_of_ofSecret hsecret, hpublic, List.take_append_drop]
        next => cases h
    next => cases h
  · rintro rfl
    rw [decode, if_pos k.length_encode, encode, List.take_left' k.length_secret,
      List.drop_left' k.length_secret, ofSecret_secret]
    exact if_pos rfl

end Ed25519.Keypair

namespace Dilithium.Keypair

/-- A keypair is given by the bytes of its halves. -/
theorem eq_of_bytes_eq {k l : Keypair} (hsecret : k.secret = l.secret)
    (hpublic : k.publicKey.bytes = l.publicKey.bytes) : k = l := by
  obtain ⟨_, ⟨_, _⟩, _⟩ := k
  obtain ⟨_, ⟨_, _⟩, _⟩ := l
  obtain rfl := hsecret
  obtain rfl := hpublic
  rfl

/-- All encodings have one length. -/
theorem length_encode (k : Keypair) : k.encode.length = encodedLength := by
  rw [encode, List.length_append, k.isSecretOf.length_secret, k.publicKey.length_bytes]
  rfl

/-- The bytes that are read as a keypair are its encoding, and no others. -/
theorem decode_eq_ok_iff {b : Bytes} {k : Keypair} : decode b = .ok k ↔ k.encode = b := by
  constructor
  · intro h
    unfold decode at h
    split at h
    next =>
      dsimp only at h
      split at h
      next =>
        split at h
        next =>
          cases h
          exact List.take_append_drop _ b
        next => cases h
      next => cases h
    next => cases h
  · rintro rfl
    -- The two parts of the form are the halves of the key, which carries the proofs of the checks.
    have htake : k.encode.take MlDsa.secretKeyLength = k.secret :=
      List.take_left' k.isSecretOf.length_secret
    have hdrop : k.encode.drop MlDsa.secretKeyLength = k.publicKey.bytes :=
      List.drop_left' k.isSecretOf.length_secret
    have hseed : SameSeed (k.encode.take MlDsa.secretKeyLength)
        (k.encode.drop MlDsa.secretKeyLength) := by
      rw [htake, hdrop]
      exact k.isSecretOf.sameSeed
    have hhash : HoldsHash (k.encode.take MlDsa.secretKeyLength)
        (k.encode.drop MlDsa.secretKeyLength) := by
      rw [htake, hdrop]
      exact k.isSecretOf.holdsHash
    rw [decode, dif_pos k.length_encode]
    simp only [hseed, hhash, dite_true]
    exact congrArg Except.ok (eq_of_bytes_eq htake hdrop)

end Dilithium.Keypair

/-- The keypair of a scalar has this scalar. -/
theorem Curve.KeyPair.scalar_of_ofScalar? {C : Curve} {n : Nat} {k : KeyPair C}
    (h : ofScalar? C n = some k) : k.scalar = n := by
  unfold ofScalar? at h
  split at h
  next =>
    split at h
    next => cases h
    next =>
      split at h
      next =>
        cases h
        rfl
      next => cases h
  next => cases h

namespace Secp256k1.Keypair

/-- All encodings have the length of a scalar. -/
theorem length_encode (k : Keypair) : k.encode.length = scalarLength :=
  Bytes.length_ofNatBE _ _

/-- The encoding writes the scalar. -/
theorem toNatBE_encode (k : Keypair) : Bytes.toNatBE k.encode = k.pair.scalar :=
  Bytes.toNatBE_ofNatBE (Nat.lt_trans k.pair.lt_order (by decide))

/-- The bytes that are read as a keypair are its encoding, and no others. -/
theorem decode_eq_ok_iff {b : Bytes} {k : Keypair} : decode b = .ok k ↔ k.encode = b := by
  constructor
  · intro h
    unfold decode at h
    split at h
    next hlen =>
      unfold ofScalar at h
      split at h
      next =>
        split at h
        next pair hpair =>
          cases h
          rw [encode, Curve.KeyPair.scalar_of_ofScalar? hpair, ← hlen, Bytes.ofNatBE_toNatBE]
        next => cases h
      next => cases h
    next => cases h
  · rintro rfl
    rw [decode, if_pos k.length_encode, toNatBE_encode, ofScalar,
      if_pos ⟨k.pair.pos, k.pair.lt_order⟩, Curve.KeyPair.ofScalar?_scalar]

end Secp256k1.Keypair

/-- A keypair is read back from its own structure. -/
theorem Ecdsa.Keypair.decode_encode (k : Keypair) : decode k.encode = .ok k := by
  have hread : PrivateKeyInfo.decode? k.encode =
      some (.ec .secp256r1 k.pair.scalar k.pair.point.x k.pair.point.y) :=
    PrivateKeyInfo.decode?_encodeEc ⟨k.pair.pos, k.pair.lt_order⟩ k.pair.derived k.pair.point.isOn
  rw [decode, hread]
  simp only [ofScalar, Curve.KeyPair.ofScalar?_scalar]

namespace Rsa.Keypair

/-- A keypair is read back from its structure, also where its public half would be refused. -/
theorem decode_encode (k : Keypair) : decode k.encode = .ok k := by
  have hread : PrivateKeyInfo.decode? k.encode = some (.rsa k.numbers) :=
    PrivateKeyInfo.decode?_encodeRsa k.consistent k.sized
  rw [decode, hread]
  simp only [ofNumbers, k.consistent, k.sized, dite_true]

/-- The exponents undo each other modulo an even number, so the public exponent is odd. -/
theorem exponent_odd (k : Keypair) : k.numbers.e % 2 = 1 := by
  obtain ⟨hp, -, -, -, hinverse, -⟩ := k.consistent
  -- Already `p - 1` is even.
  have heven : 2 ∣ Nat.lcm (k.numbers.p - 1) (k.numbers.q - 1) :=
    Nat.dvd_trans (by omega) (Nat.dvd_lcm_left _ _)
  have hodd : k.numbers.d * k.numbers.e % 2 = 1 := by
    rw [← Nat.mod_mod_of_dvd _ heven, hinverse]
  exact Nat.odd_iff.mp (Nat.odd_mul.mp (Nat.odd_iff.mpr hodd)).2

/-- The public half is read back exactly if the public exponent is below the modulus. -/
theorem isReadable_publicKey_iff (k : Keypair) :
    k.publicKey.IsReadable ↔ k.numbers.e < k.numbers.n := by
  have hodd := k.exponent_odd
  obtain ⟨-, -, -, hone, -⟩ := k.consistent
  constructor
  · rintro ⟨-, -, hlt⟩
    exact hlt
  · intro hlt
    exact ⟨hodd, show 3 ≤ k.numbers.e by omega, hlt⟩

end Rsa.Keypair

namespace Keypair

/-! ## Encodings of all algorithms -/

/-- The public half is of the same algorithm. -/
theorem keyType_publicKey (k : Keypair) : k.publicKey.keyType = k.keyType := by
  cases k <;> rfl

/-- A keypair is read from its own encoding. -/
theorem readRaw_rawBytes (k : Keypair) : readRaw k.keyType k.rawBytes = .ok k := by
  cases k with
  | rsa k => simp only [readRaw, keyType, rawBytes, k.decode_encode, Except.map]
  | ed25519 k =>
    simp only [readRaw, keyType, rawBytes, Ed25519.Keypair.decode_eq_ok_iff.mpr rfl, Except.map]
  | secp256k1 k =>
    simp only [readRaw, keyType, rawBytes, Secp256k1.Keypair.decode_eq_ok_iff.mpr rfl, Except.map]
  | ecdsa k => simp only [readRaw, keyType, rawBytes, k.decode_encode, Except.map]
  | dilithium k =>
    simp only [readRaw, keyType, rawBytes, Dilithium.Keypair.decode_eq_ok_iff.mpr rfl, Except.map]

/-- The encoding of a keypair is short enough for an envelope. -/
theorem length_rawBytes_lt (k : Keypair) : k.rawBytes.length < Varint.limit := by
  have hlimit : Der.contentsLimit < Varint.limit := by decide
  cases k with
  | rsa k => exact (PrivateKeyInfo.length_encodeRsa_lt k.consistent k.sized).trans hlimit
  | ed25519 k => exact k.length_encode.trans_lt (by decide)
  | secp256k1 k => exact k.length_encode.trans_lt (by decide)
  | ecdsa k =>
    exact (PrivateKeyInfo.length_encodeEc_lt .secp256r1 k.pair.scalar k.pair.point.x
      k.pair.point.y).trans hlimit
  | dilithium k => exact k.length_encode.trans_lt (by decide)

/-- Every keypair is read back from its own envelope. -/
theorem decode_encode (k : Keypair) : decode k.encode = .ok k := by
  have henvelope : Envelope.decode k.encode = .ok k.envelope :=
    Envelope.decode_encode k.length_rawBytes_lt
  rw [decode, henvelope]
  exact mapError_eq_ok_iff.mpr k.readRaw_rawBytes

/-- A keypair that is read is of the algorithm that was asked for. -/
theorem keyType_of_readRaw {t : KeyType} {b : Bytes} {k : Keypair} (h : readRaw t b = .ok k) :
    k.keyType = t := by
  cases t <;> obtain ⟨_, -, rfl⟩ := map_eq_ok_iff.mp h <;> rfl

/-- The algorithms whose keypairs have one encoding. -/
def IsPlain (t : KeyType) : Prop :=
  t = .ed25519 ∨ t = .secp256k1 ∨ t = .dilithium

/-- A keypair of an algorithm with one encoding has the bytes it was read from. -/
theorem rawBytes_of_readRaw {t : KeyType} {b : Bytes} {k : Keypair} (h : readRaw t b = .ok k)
    (ht : IsPlain t) : k.rawBytes = b := by
  rcases ht with rfl | rfl | rfl
  · obtain ⟨k, hk, rfl⟩ := map_eq_ok_iff.mp h
    exact Ed25519.Keypair.decode_eq_ok_iff.mp hk
  · obtain ⟨k, hk, rfl⟩ := map_eq_ok_iff.mp h
    exact Secp256k1.Keypair.decode_eq_ok_iff.mp hk
  · obtain ⟨k, hk, rfl⟩ := map_eq_ok_iff.mp h
    exact Dilithium.Keypair.decode_eq_ok_iff.mp hk

/-- A keypair is read from an envelope of its type, which holds its encoding if there is but one. -/
theorem envelope_of_decode {b : Bytes} {k : Keypair} (h : decode b = .ok k) :
    ∃ payload, Envelope.decode b = .ok ⟨k.keyType, payload⟩ ∧
      (IsPlain k.keyType → k.rawBytes = payload) := by
  unfold decode at h
  split at h
  next => cases h
  next m hm =>
    have hraw := mapError_eq_ok_iff.mp h
    rw [keyType_of_readRaw hraw]
    exact ⟨m.data, hm, rawBytes_of_readRaw hraw⟩

/-- The public half of a keypair is read back, but for RSA keypairs with large exponents. -/
theorem isReadable_publicKey_iff (k : Keypair) :
    k.publicKey.IsReadable ↔ ∀ r, k = .rsa r → r.numbers.e < r.numbers.n := by
  cases k with
  -- Only an RSA keypair has a condition to meet.
  | rsa k =>
    refine (Rsa.Keypair.isReadable_publicKey_iff k).trans ⟨?_, fun h => h k rfl⟩
    rintro hlt r ⟨⟩
    exact hlt
  | _ => exact ⟨fun _ => nofun, fun _ => trivial⟩

/-- Reading and writing keypairs is stable. The written form of a keypair is read as the keypair,
and the form of its public half as the public half, unless the keypair is one of RSA with a public
exponent as large as the modulus. The encoding of an Ed25519, secp256k1 or ML-DSA keypair is the
data of the envelope that the keypair was read from. -/
theorem decode_stable {data : Bytes} {k : Keypair} (h : decode data = .ok k) :
    decode k.encode = .ok k ∧
    (decode k.encode).map encode = .ok k.encode ∧
    k.publicKey.keyType = k.keyType ∧
    (∀ l, PublicKey.decode k.publicKey.encode = .ok l ↔
      (∀ r, k = .rsa r → r.numbers.e < r.numbers.n) ∧ l = k.publicKey) ∧
    ∃ payload, Envelope.decode data = .ok ⟨k.keyType, payload⟩ ∧
      (k.keyType = .ed25519 ∨ k.keyType = .secp256k1 ∨ k.keyType = .dilithium →
        k.rawBytes = payload) := by
  refine ⟨k.decode_encode, ?_, k.keyType_publicKey, fun l => ?_, envelope_of_decode h⟩
  · rw [k.decode_encode]
    rfl
  · rw [PublicKey.decode_encode_eq_ok_iff, isReadable_publicKey_iff]

/-- The keypair of a secret of 32 bytes is read from its written form. -/
theorem decode_stable_ed25519 :
    let secret := List.replicate 32 7
    let k := ed25519 ⟨secret, ⟨Ed25519.derive secret, Ed25519.length_derive secret⟩, by decide, rfl⟩
    decode k.encode = .ok k ∧ PublicKey.decode k.publicKey.encode = .ok k.publicKey := by
  intro secret k
  have hread := k.decode_encode
  obtain ⟨hagain, -, -, hpublic, -⟩ := decode_stable hread
  exact ⟨hagain, (hpublic _).mpr ⟨nofun, rfl⟩⟩

end Keypair

/-! ## Fresh keypairs -/

/-- A keypair that random bytes lead to is of the algorithm that was asked for. -/
theorem Keypair.keyType_of_ofEntropy? {t : KeyType} {rsaBits : Nat} {entropy : Bytes}
    {k : Keypair} (h : ofEntropy? t rsaBits entropy = some k) : k.keyType = t := by
  cases t <;> rw [ofEntropy?] at h <;> obtain ⟨_, -, rfl⟩ := Option.map_eq_some_iff.mp h <;> rfl

/-- A keypair that is generated is of the algorithm that was asked for. -/
theorem Keypair.keyType_of_generate {config : Config} {t : KeyType} {randomness : Randomness}
    {k : Keypair} (h : Keypair.generate config t randomness = .ok k) : k.keyType = t := by
  unfold generate generated at h
  split at h
  next => cases h
  next =>
    split at h
    next hk =>
      cases h
      exact keyType_of_ofEntropy? hk
    next => cases h

/-! ## Large exponents -/

/-- The numbers of a key of 2048 bits. Its primes are the two largest ones of 1024 bits, and its
public exponent is 65537, up to a multiple of the number modulo which exponents count. -/
def Rsa.largeExponentNumbers : PrivateNumbers :=
  let p := 2 ^ 1024 - 105
  let q := 2 ^ 1024 - 179
  let period := Nat.lcm (p - 1) (q - 1)
  -- The divisions leave no remainder: 65537 divides 42579 * period + 1, and 74 = p - q divides
  -- 5 * p - 1, so q has the inverse (5 * p - 1) / 74 modulo p.
  let d := (42579 * period + 1) / 65537
  { n := p * q, e := 3 * period + 65537, d, p, q, dp := d % (p - 1), dq := d % (q - 1),
    qinv := (5 * p - 1) / 74 }

/-- The keypair of these numbers. -/
def Rsa.largeExponent : Keypair where
  numbers := largeExponentNumbers
  consistent := by decide +kernel
  sized := by decide +kernel

/-- The public half of a keypair with an exponent above its modulus is not read. -/
theorem Rsa.not_isReadable_largeExponent : ¬ largeExponent.publicKey.IsReadable := by
  intro hreadable
  have hlt := (Keypair.isReadable_publicKey_iff largeExponent).mp hreadable
  have hge : largeExponentNumbers.n ≤ largeExponentNumbers.e := by decide +kernel
  exact Nat.not_lt.mpr hge hlt

/-- A keypair with a large exponent is read, but its public half is not. -/
theorem Keypair.not_decode_publicKey_of_largeExponent :
    let k := Keypair.rsa Rsa.largeExponent
    Keypair.decode k.encode = .ok k ∧
      ¬ ∃ l, PublicKey.decode k.publicKey.encode = .ok l := by
  intro k
  refine ⟨k.decode_encode, ?_⟩
  rintro ⟨l, hl⟩
  have hreadable := (PublicKey.decode_encode_eq_ok_iff.mp hl).1
  have hlt := (isReadable_publicKey_iff k).mp hreadable _ rfl
  have hge : Rsa.largeExponentNumbers.n ≤ Rsa.largeExponentNumbers.e := by decide +kernel
  exact Nat.not_lt.mpr hge hlt

end PeerIdentity
