import PeerIdentity.Keypair

/-!
# Keypairs that can be erased

A vault holds keypairs whose secrets can be erased. A handle refers to a keypair of the vault, and
several handles may refer to the same one: erasing its secret through one of them erases it for
all. What is known of the public half stays. A keypair that no handle refers to loses its secret.

* `KeyState`: a public key and what holds the secret that belongs to it;
* `Vault`, `Handle`: the keypairs and the references to them;
* `Vault.step`, `Vault.run`: what one request and a list of requests answer and leave behind.
-/

namespace PeerIdentity

/-! ## One keypair -/

/-- A public key and what holds the secret that belongs to it. -/
inductive KeyState where
  /-- The engine holds the keypair until it is told to release it. -/
  | engine (publicKey : PublicKey) (key : Option Keypair)
      (publicKey_eq : ∀ k ∈ key, k.publicKey = publicKey)
  /-- A buffer holds the secret of an ML-DSA keypair. It is empty once the secret was erased. -/
  | buffer (publicKey : Dilithium.PublicKey) (secret : Bytes)
      (isSecretOf : secret ≠ [] → Dilithium.IsSecretOf secret publicKey)

namespace KeyState

/-- A keypair whose secret was not erased. -/
def ofKeypair : Keypair → KeyState
  | .dilithium k => buffer k.publicKey k.secret fun _ => k.isSecretOf
  | k => engine k.publicKey (some k) (by simp)

/-- The public half. -/
def publicKey : KeyState → PublicKey
  | engine k _ _ => k
  | buffer k _ _ => .dilithium k

/-- The algorithm. -/
def keyType (s : KeyState) : KeyType :=
  s.publicKey.keyType

/-- The keypair, unless its secret was erased. -/
def keypair : KeyState → Except IdentityError Keypair
  | engine _ (some k) _ => .ok k
  | engine k none _ => .error (.erased k.keyType)
  | buffer k secret isSecretOf =>
    if h : secret = [] then .error (.erased .dilithium)
    else .ok (.dilithium ⟨secret, k, isSecretOf h⟩)

/-- The encoding of the keypair. -/
def rawBytes (s : KeyState) : Except IdentityError Bytes :=
  s.keypair.map Keypair.rawBytes

/-- The envelope of the keypair. -/
def encode (s : KeyState) : Except IdentityError Bytes :=
  s.keypair.map Keypair.encode

/-- The signature of a message. -/
def sign (s : KeyState) (randomness : Randomness) (message : Bytes) : Except Failure Bytes :=
  match s.keypair with
  | .error e => .error (.identity e)
  | .ok k => k.sign randomness message

/-- What is left when the secret is erased. -/
def erase : KeyState → KeyState
  | engine k _ _ => engine k none (by simp)
  | buffer k _ _ => buffer k [] (by simp)

end KeyState

/-! ## Many keypairs -/

/-- A reference to a keypair of a vault. -/
structure Handle where
  /-- The position of the keypair. -/
  slot : Nat
  /-- Whether the keypair was taken out as a keypair of its algorithm. -/
  isSpecific : Bool
  deriving DecidableEq, Repr

/-- The handle to the keypair of its algorithm. -/
def Handle.specific (h : Handle) : Handle :=
  ⟨h.slot, true⟩

/-- Keypairs whose secrets can be erased, and the references to them. -/
structure Vault where
  /-- The keypairs, in the order in which they were added. -/
  states : List KeyState
  /-- The handles in use, each as often as it was given out. -/
  handles : List Handle
  slot_lt : ∀ h ∈ handles, h.slot < states.length

namespace Vault

/-- The vault without keypairs. -/
def empty : Vault :=
  ⟨[], [], by simp⟩

/-- The state of the keypair that a handle in use refers to. -/
def get? (v : Vault) (h : Handle) : Option KeyState :=
  if h ∈ v.handles then v.states[h.slot]? else none

/-- Whether a slot has a handle in use. -/
def InUse (v : Vault) (slot : Nat) : Prop :=
  ∃ h ∈ v.handles, h.slot = slot

instance (v : Vault) (slot : Nat) : Decidable (v.InUse slot) :=
  inferInstanceAs (Decidable (∃ h ∈ v.handles, _))

/-- Adds a keypair, and puts a handle to it in use. -/
def add (v : Vault) (k : Keypair) : Handle × Vault :=
  let h : Handle := ⟨v.states.length, false⟩
  (h, ⟨v.states ++ [.ofKeypair k], h :: v.handles, by
    intro g hg
    rcases List.mem_cons.mp hg with rfl | hg
    · simp [h]
    · have := v.slot_lt g hg
      simp
      omega⟩)

/-- Puts a handle to a keypair in use that another handle refers to. -/
def share (v : Vault) (h : Handle) : Vault :=
  if hslot : h.slot < v.states.length then
    ⟨v.states, h :: v.handles, by simpa [hslot] using v.slot_lt⟩
  else v

/-- Erases the secret of the keypair in a slot. -/
def erase (v : Vault) (slot : Nat) : Vault :=
  ⟨v.states.modify slot KeyState.erase, v.handles, by simpa using v.slot_lt⟩

/-- Takes a handle out of use, once. -/
def release (v : Vault) (h : Handle) : Vault :=
  ⟨v.states, v.handles.erase h, fun g hg => v.slot_lt g (List.mem_of_mem_erase hg)⟩

/-- Gives up a handle. The secret of the keypair goes with the last handle to it, of whichever
kind. -/
def drop (v : Vault) (h : Handle) : Vault :=
  if (v.release h).InUse h.slot then v.release h else (v.release h).erase h.slot

/-- A request. -/
inductive Request where
  /-- Adds the keypair of an envelope. -/
  | decode (b : Bytes)
  /-- Adds the keypair of an encoding of an algorithm. -/
  | decodeRaw (t : KeyType) (b : Bytes)
  /-- Adds a fresh keypair. -/
  | generate (config : Config) (t : KeyType) (randomness : Randomness)
  /-- Adds a fresh RSA keypair of a given size. -/
  | generateRsa (bits : Int) (randomness : Randomness)
  /-- Takes out a keypair of a given algorithm, whose secret stays shared. -/
  | into (h : Handle) (t : KeyType)
  | sign (h : Handle) (randomness : Randomness) (message : Bytes)
  | encode (h : Handle)
  | rawBytes (h : Handle)
  | keyType (h : Handle)
  | publicKey (h : Handle)
  | peerId (h : Handle)
  | describe (h : Handle)
  | erase (h : Handle)
  /-- Leaves the block that a keypair was opened for. -/
  | leave (h : Handle)
  /-- Gives up a handle. -/
  | drop (h : Handle)

/-- What a request is answered by. -/
inductive Answer where
  | handle (h : Handle)
  | bytes (b : Bytes)
  | keyType (t : KeyType)
  | publicKey (k : PublicKey)
  | peerId (p : PeerId)
  | text (s : String)
  | done
  | failed (failure : Failure)
  /-- The handle is not in use. -/
  | noKeypair
  deriving DecidableEq

/-- The answer of bytes or a failure. -/
def Answer.ofBytes : Except Failure Bytes → Answer
  | .ok b => .bytes b
  | .error failure => .failed failure

/-- Adds a keypair, or answers the failure to get one. -/
def addResult (v : Vault) : Except Failure Keypair → Answer × Vault
  | .ok k =>
    let (h, v) := v.add k
    (.handle h, v)
  | .error failure => (.failed failure, v)

/-- The answer of a keypair to a request, and the vault after it. -/
def onKeypair (v : Vault) (h : Handle) (answer : KeyState → Answer × Vault) : Answer × Vault :=
  (v.get? h).elim (.noKeypair, v) answer

/-- The answer of a keypair to a request that changes nothing. -/
def observe (v : Vault) (h : Handle) (answer : KeyState → Answer) : Answer × Vault :=
  v.onKeypair h fun s => (answer s, v)

/-- Hands out the keypair of a given algorithm. -/
def into (v : Vault) (h : Handle) (t : KeyType) (s : KeyState) : Answer × Vault :=
  if s.keyType = t then (.handle h.specific, v.share h.specific)
  else (.failed (.identity (.otherVariant s.keyType t)), v)

/-- The keypair of a handle as it is shown in messages. -/
def describeState (h : Handle) (s : KeyState) : String :=
  if h.isSpecific then s.publicKey.describeKeypairKind else s.publicKey.describeKeypair

/-- The answer to a request and the vault after it. -/
def step (v : Vault) : Request → Answer × Vault
  | .decode b => v.addResult ((Keypair.decode b).mapError Failure.identity)
  | .decodeRaw t b => v.addResult ((Keypair.ofRaw t b).mapError Failure.identity)
  | .generate config t randomness => v.addResult (Keypair.generate config t randomness)
  | .generateRsa bits randomness => v.addResult (Keypair.generateRsa bits randomness)
  | .into h t => v.onKeypair h (v.into h t)
  | .sign h randomness message => v.observe h fun s => .ofBytes (s.sign randomness message)
  | .encode h => v.observe h fun s => .ofBytes (s.encode.mapError Failure.identity)
  | .rawBytes h => v.observe h fun s => .ofBytes (s.rawBytes.mapError Failure.identity)
  | .keyType h => v.observe h fun s => .keyType s.keyType
  | .publicKey h => v.observe h fun s => .publicKey s.publicKey
  | .peerId h => v.observe h fun s => .peerId s.publicKey.peerId
  | .describe h => v.observe h fun s => .text (describeState h s)
  | .erase h | .leave h => v.onKeypair h fun _ => (.done, v.erase h.slot)
  | .drop h => v.onKeypair h fun _ => (.done, v.drop h)

/-- The answers to a list of requests and the vault after them. -/
def run (v : Vault) : List Request → List Answer × Vault
  | [] => ([], v)
  | r :: rs =>
    let (answer, v) := v.step r
    let (answers, v) := v.run rs
    (answer :: answers, v)

end Vault

end PeerIdentity
