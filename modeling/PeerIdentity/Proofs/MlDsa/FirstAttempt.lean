import PeerIdentity.Proofs.MlDsa.Evaluation

/-!
# First attempts of keypairs without secrets

A keypair without secrets is given by its seeds and its public vector. The hashes that lead to its
first attempt at a signature are computed on numbers, so that the kernel evaluates the attempt.

* `Keypair.Blank`: keypairs without secrets;
* `Keypair.Blank.hashes_eq`: the message hash and the seed of the masks, as numbers;
* `Keypair.Blank.signs`, `Keypair.Blank.rejects`: whether the first attempt succeeds, and whether
  the public half rejects it;
* `Keypair.Blank.evaluation`: two keypairs for which both are evaluated.
-/

namespace PeerIdentity.Dilithium.Keypair

open MlDsa

/-- The seeds and the public vector of a keypair without secrets. -/
structure Blank where
  /-- The seed of the matrix. -/
  rho : Bytes
  /-- The seed of the masks. -/
  k : Bytes
  /-- The public vector. -/
  t1 : PolyVec
  length_rho : rho.length = 32
  length_k : k.length = 32
  length_t1 : t1.length = rowCount
  hasWidth_t1 : ∀ f ∈ t1, f.HasWidth 10

namespace Blank

variable {α : Type}

/-- The hash of the public key. -/
def tr (b : Blank) : Bytes :=
  shake256 (packPublic b.rho b.t1) 64

theorem isReduced_t1 (b : Blank) : b.t1.IsReduced rowCount :=
  ⟨b.length_t1, fun f hf => (b.hasWidth_t1 f hf).isReduced (by decide)⟩

/-! ## Evaluating a signature -/

/-- The hash that stands for a message. -/
def mu (b : Blank) (message : Bytes) : Bytes :=
  messageHash b.tr message

/-- The seed of the masks of a message. -/
def seed (b : Blank) (randomness message : Bytes) : Bytes :=
  shake256 (b.k ++ randomness ++ b.mu message) 64

/-- Continues with the numbers of the message hash and of the seed of the masks. -/
def hashes (b : Blank) (randomness message : Bytes) (next : (mu seed : Nat) → α) : α :=
  strict (shake256Nat publicKeyLength
    (Bytes.toNatLE b.rho + Nat.shiftLeft (ofDigits 2560 (b.t1.map (ofDigits 10))) 256) 64) fun tr =>
  strict (shake256Nat (66 + message.length)
    (tr + Nat.shiftLeft (Bytes.toNatLE (0 :: 0 :: message)) 512) 64) fun mu =>
  strict (shake256Nat 128 (Bytes.toNatLE (b.k ++ randomness) + Nat.shiftLeft mu 512) 64) fun seed =>
    next mu seed

/-- The hash of the public key is computed on packed polynomials. -/
theorem toNatLE_tr (b : Blank) :
    Bytes.toNatLE b.tr = shake256Nat publicKeyLength
      (Bytes.toNatLE b.rho + Nat.shiftLeft (ofDigits 2560 (b.t1.map (ofDigits 10))) 256) 64 := by
  rw [tr, toNatLE_shake256, length_packPublic b.length_rho b.length_t1, packPublic,
    Bytes.toNatLE_append, toNatLE_flatMap_pack b.hasWidth_t1, b.length_rho, Nat.mul_comm,
    ← Bytes.shiftLeft_bytes]
  rfl

/-- The numbers that are computed are those of the message hash and of the seed of the masks. -/
theorem hashes_eq (b : Blank) {randomness : Bytes} (h : randomness.length = 32) (message : Bytes)
    (next : Nat → Nat → α) :
    b.hashes randomness message next =
      next (Bytes.toNatLE (b.mu message)) (Bytes.toNatLE (b.seed randomness message)) := by
  have hmu : Bytes.toNatLE (b.mu message) = shake256Nat (66 + message.length)
      (Bytes.toNatLE b.tr + Nat.shiftLeft (Bytes.toNatLE (0 :: 0 :: message)) 512) 64 := by
    have htr : b.tr.length = 64 := length_shake256 _ _
    have hlength : (b.tr ++ 0 :: 0 :: message).length = 66 + message.length := by
      simp only [List.length_append, List.length_cons, htr]
      omega
    rw [mu, messageHash, toNatLE_shake256, hlength, Bytes.toNatLE_append, htr, Nat.mul_comm,
      ← Bytes.shiftLeft_bytes]
    rfl
  have hseed : Bytes.toNatLE (b.seed randomness message) =
      shake256Nat 128 (Bytes.toNatLE (b.k ++ randomness) +
        Nat.shiftLeft (Bytes.toNatLE (b.mu message)) 512) 64 := by
    have hmu : (b.mu message).length = 64 := length_shake256 _ _
    have hfront : (b.k ++ randomness).length = 64 := by rw [List.length_append, b.length_k, h]
    have hlength : (b.k ++ randomness ++ b.mu message).length = 128 := by
      rw [List.length_append, hfront, hmu]
    rw [seed, toNatLE_shake256, hlength, Bytes.toNatLE_append, hfront, Nat.mul_comm,
      ← Bytes.shiftLeft_bytes]
    rfl
  rw [hashes, strict_eq, strict_eq, strict_eq, ← toNatLE_tr, ← hmu, ← hseed]

/-- Whether the first attempt at a signature succeeds. -/
def signs (b : Blank) (randomness message : Bytes) : Bool :=
  b.hashes randomness message fun _ seed => MlDsa.signs b.rho seed

/-- Whether the first attempt at a signature succeeds and the public half rejects it. -/
def rejects (b : Blank) (randomness message : Bytes) : Bool :=
  b.hashes randomness message fun mu seed => MlDsa.rejects b.rho b.t1 mu seed

/-! ## Two keypairs -/

/-- The keypair with seeds of zeros and a public vector with one coefficient, the constant of its
first polynomial. -/
def ofConstant (c : Nat) (hc : c < 2 ^ 10) : Blank where
  rho := List.replicate 32 0
  k := List.replicate 32 0
  t1 := (c :: List.replicate 255 0) :: List.replicate 7 Poly.zero
  length_rho := rfl
  length_k := rfl
  length_t1 := rfl
  hasWidth_t1 := by
    have hzero : ∀ x ∈ Poly.zero, x < 2 ^ 10 := fun x hx => by
      rw [List.eq_of_mem_replicate hx]
      decide
    intro f hf
    rcases List.mem_cons.mp hf with rfl | hf
    · refine ⟨by rw [List.length_cons, List.length_replicate], fun x hx => ?_⟩
      rcases List.mem_cons.mp hx with rfl | hx
      · exact hc
      · rw [List.eq_of_mem_replicate hx]
        decide
    · rw [List.eq_of_mem_replicate hf]
      exact ⟨List.length_replicate, hzero⟩

/-- With the constant zero the first attempt for the empty message succeeds. With the constant 64 it
succeeds, too, and is rejected. -/
theorem evaluation :
    (ofConstant 0 (by decide)).signs (List.replicate 32 2) [] = true ∧
      (ofConstant 64 (by decide)).rejects (List.replicate 32 2) [] = true := by
  -- One evaluation after the other: what the kernel remembers of the first is not kept.
  constructor
  · decide +kernel
  · decide +kernel

end Blank

end PeerIdentity.Dilithium.Keypair
