import PeerIdentity.MlDsa.Rounding
import PeerIdentity.MlDsa.Sampling

/-!
# ML-DSA-87

Key generation, signing and verification of the lattice signature scheme ML-DSA with the
parameters of security level 5 and the empty context.

* `generate`: the public and the secret key of a seed of 32 bytes;
* `sign?`: the signature of a message with 32 bytes of randomness;
* `verify`: whether a signature belongs to a message and a public key.

A secret key is read as it stands: fields outside the range of generated keys take part in signing
with the values that they unpack to.
-/

namespace PeerIdentity.MlDsa

/-! ## Parameters -/

/-- Rows of the matrix. -/
def rowCount : Nat := 8

/-- Columns of the matrix. -/
def columnCount : Nat := 7

/-- The largest coefficient of a product of a challenge and a secret polynomial. -/
def beta : Nat := 120

/-- Bytes of a public key. -/
def publicKeyLength : Nat := 2592

/-- Bytes of a secret key. -/
def secretKeyLength : Nat := 4896

/-- Bytes of a signature. -/
def signatureLength : Nat := 4627

/-! ## Expanding seeds -/

/-- The matrix of a seed, in values. -/
def expandMatrix (rho : Bytes) : List PolyVec :=
  (List.range rowCount).map fun r => (List.range columnCount).map fun s =>
    uniform (rho ++ [UInt8.ofNat s, UInt8.ofNat r])

/-- The small vectors of a seed, numbered on from `first`. -/
def expandSmall (seed : Bytes) (first count : Nat) : PolyVec :=
  (List.range count).map fun i => small (seed ++ Bytes.ofNatLE 2 (first + i))

/-- The mask of a seed, numbered on from `first`. -/
def expandMask (seed : Bytes) (first : Nat) : PolyVec :=
  (List.range columnCount).map fun i => mask (seed ++ Bytes.ofNatLE 2 (first + i))

/-! ## Keys -/

/-- The fields of a secret key. -/
structure SecretKey where
  /-- The seed of the matrix. -/
  rho : Bytes
  /-- The seed of the masks. -/
  k : Bytes
  /-- The hash of the public key. -/
  tr : Bytes
  /-- The secret vector. -/
  s1 : PolyVec
  /-- The error vector. -/
  s2 : PolyVec
  /-- The low parts of the public vector. -/
  t0 : PolyVec

/-- The bytes of a secret key. -/
def SecretKey.pack (sk : SecretKey) : Bytes :=
  sk.rho ++ sk.k ++ sk.tr ++ sk.s1.flatMap (fun f => MlDsa.pack 3 (reflectFrom 2 f)) ++
    sk.s2.flatMap (fun f => MlDsa.pack 3 (reflectFrom 2 f)) ++
    sk.t0.flatMap (fun f => MlDsa.pack 13 (reflectFrom 4096 f))

/-- The fields that 4896 bytes write. -/
def SecretKey.unpack (b : Bytes) : SecretKey where
  rho := b.take 32
  k := (b.drop 32).take 32
  tr := (b.drop 64).take 64
  s1 := (unpackVec 3 columnCount (b.drop 128)).map (reflectFrom 2)
  s2 := (unpackVec 3 rowCount (b.drop 800)).map (reflectFrom 2)
  t0 := (unpackVec 13 rowCount (b.drop 1568)).map (reflectFrom 4096)

/-- The bytes of a public key: the seed of the matrix and the high parts of the public vector. -/
def packPublic (rho : Bytes) (t1 : PolyVec) : Bytes :=
  rho ++ t1.flatMap (pack 10)

/-- The public and the secret key of a seed. -/
def generate (seed : Bytes) : Bytes × Bytes :=
  let expanded := shake256 (seed ++ [UInt8.ofNat rowCount, UInt8.ofNat columnCount]) 128
  let rho := expanded.take 32
  let s1 := expandSmall ((expanded.drop 32).take 64) 0 columnCount
  let s2 := expandSmall ((expanded.drop 32).take 64) columnCount rowCount
  let t := ((PolyVec.apply (expandMatrix rho) s1.transform).untransform).add s2
  let publicKey := packPublic rho (t.map fun f => f.map highDigit)
  let secretKey : SecretKey :=
    { rho, k := expanded.drop 96, tr := shake256 publicKey 64, s1, s2,
      t0 := t.map fun f => f.map lowDigit }
  (publicKey, secretKey.pack)

/-! ## Signatures -/

/-- The hash that stands for a message under the empty context. -/
def messageHash (tr message : Bytes) : Bytes :=
  shake256 (tr ++ 0 :: 0 :: message) 64

/-- The hash of a message hash and the high parts of a commitment. -/
def commitmentHash (mu : Bytes) (highParts : PolyVec) : Bytes :=
  shake256 (mu ++ highParts.flatMap (pack 4)) 64

/-- The bytes of a signature: the commitment hash, the response and the hint. -/
def packSignature (hash : Bytes) (z : PolyVec) (h : Hint) : Bytes :=
  hash ++ z.flatMap (fun f => pack 20 (reflectFrom gamma1 f)) ++ packHint h

/-- The positions at which a polynomial's hint bits are set. -/
def hintRow (z x : Poly) : List Nat :=
  ((z.zip x).zipIdx.filter fun p => makeHint p.1.1 p.1.2).map (·.2)

/-- A secret key with its matrix and its vectors in values, ready to sign. -/
structure Signer where
  matrix : List PolyVec
  s1 : PolyVec
  s2 : PolyVec
  t0 : PolyVec

/-- Prepares a secret key. -/
def SecretKey.signer (sk : SecretKey) : Signer :=
  ⟨expandMatrix sk.rho, sk.s1.transform, sk.s2.transform, sk.t0.transform⟩

/-- One attempt at a signature of a message hash, with the masks numbered on from `first`. It fails
when the response or a low part would tell something about the secret, or when the hint is too
long. -/
def Signer.attempt? (signer : Signer) (mu seed : Bytes) (first : Nat) : Option Bytes :=
  let y := expandMask seed first
  let w := (PolyVec.apply signer.matrix y.transform).untransform
  let hash := commitmentHash mu (w.map fun f => f.map highPart)
  let c := (challenge hash).transform
  let z := y.add (PolyVec.times c signer.s1)
  -- Every response within this bound is as likely as any other, whatever the secret is.
  if z.reaches (gamma1 - beta) then none
  else
    let r := w.sub (PolyVec.times c signer.s2)
    -- Within this bound the error vector does not change the high parts of the commitment.
    if PolyVec.reaches (gamma2 - beta) (r.map fun f => f.map lowPart) then none
    else
      let ct0 := PolyVec.times c signer.t0
      if ct0.reaches gamma2 then none
      else
        let minus := ct0.map fun f => f.map fun x => (q - x) % q
        let h := List.zipWith hintRow minus (r.add ct0)
        if omega < Hint.weight h then none else some (packSignature hash z h)

/-- The first successful one of `attempts` attempts. -/
def Signer.signFrom? (signer : Signer) (mu seed : Bytes) : (attempts first : Nat) → Option Bytes
  | 0, _ => none
  | attempts + 1, first =>
    match signer.attempt? mu seed first with
    | some signature => some signature
    | none => signer.signFrom? mu seed attempts (first + columnCount)

/-- The number of attempts for which the masks' numbers fit into two bytes. -/
def attemptLimit : Nat := 9362

/-- The signature of a message under a secret key with 32 bytes of randomness. -/
def sign? (secretKey message randomness : Bytes) : Option Bytes :=
  let sk := SecretKey.unpack secretKey
  let mu := messageHash sk.tr message
  sk.signer.signFrom? mu (shake256 (sk.k ++ randomness ++ mu) 64) attemptLimit 0

/-- The high parts that a response and a hint lead back to. -/
def recover (rho : Bytes) (t1 : PolyVec) (c : Poly) (z : PolyVec) (h : Hint) : PolyVec :=
  let scaled := t1.map fun f => (Poly.scale 8192 f).transform
  let ct1 := scaled.map c.pointwise
  let w := ((PolyVec.apply (expandMatrix rho) z.transform).sub ct1).untransform
  List.zipWith (fun f row => f.zipIdx.map fun p => useHint (row.contains p.2) p.1) w h

/-- Whether a signature belongs to a message under a public key. -/
def verify (publicKey message signature : Bytes) : Bool :=
  let hash := signature.take 64
  let z : PolyVec := (unpackVec 20 columnCount (signature.drop 64)).map (reflectFrom gamma1)
  match unpackHint? (signature.drop 4544) with
  | none => false
  | some h =>
    if signature.length ≠ signatureLength ∨ z.reaches (gamma1 - beta) then false
    else
      let mu := messageHash (shake256 publicKey 64) message
      let t1 := unpackVec 10 rowCount (publicKey.drop 32)
      let c := (challenge hash).transform
      hash == commitmentHash mu (recover (publicKey.take 32) t1 c z h)

end PeerIdentity.MlDsa
