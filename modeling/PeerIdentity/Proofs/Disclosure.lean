import PeerIdentity.Proofs.Erasure
import PeerIdentity.Proofs.KeyFiles

/-!
# What keypairs disclose

Two keypairs may have one public key and different secrets: of an ML-DSA secret, decoding checks the
seed and the hash of the public key only. Such keypairs can be told apart by signatures and by
encodings, and by nothing else. Everything that a run of requests answers besides is computed from
the public keys, from the requests and from what has been erased.

Runs are compared in pairs. Two states agree if they hold the same public keys under the same
handles, with the same secrets erased, and requests agree if they are the same or add keypairs with
one public key. One request keeps the agreement and has the same visible answer on both sides, and
so have all the requests of a run.

The module introduces:

* `KeyState.Agrees`, `Vault.Agrees`, `Vault.Request.Agrees`: agreement in all that is public;
* `Vault.visible`: an answer, unless it was made from a secret;
* `Vault.Agrees.step`, `Vault.Agrees.run`: one request and many requests;
* `Dilithium.Keypair.filled`: keypairs with any public key and with different secrets;
* `Keypair.public_outputs_agree`: keypairs with one public key have the same public outputs.
-/

namespace PeerIdentity

/-! ## One keypair -/

namespace KeyState

/-- The state of a keypair at hand has the keypair's public key. -/
theorem publicKey_ofKeypair (k : Keypair) : (ofKeypair k).publicKey = k.publicKey := by
  cases k <;> rfl

/-- Two states have one public key, and the secrets of both are at hand or those of both erased. -/
structure Agrees (s t : KeyState) : Prop where
  publicKey_eq : s.publicKey = t.publicKey
  isErased_iff : s.IsErased ↔ t.IsErased

variable {s t : KeyState}

/-- States that agree are of one algorithm. -/
theorem Agrees.keyType_eq (h : s.Agrees t) : s.keyType = t.keyType :=
  congrArg PublicKey.keyType h.publicKey_eq

/-- Keypairs with one public key have states that agree. -/
theorem agrees_ofKeypair {k l : Keypair} (h : k.publicKey = l.publicKey) :
    (ofKeypair k).Agrees (ofKeypair l) where
  publicKey_eq := by rw [publicKey_ofKeypair, publicKey_ofKeypair, h]
  isErased_iff := iff_of_false (not_isErased_ofKeypair k) (not_isErased_ofKeypair l)

/-- States that agree still do when both secrets are erased. -/
theorem Agrees.erase (h : s.Agrees t) : s.erase.Agrees t.erase where
  publicKey_eq := by rw [publicKey_erase, publicKey_erase, h.publicKey_eq]
  isErased_iff := iff_of_true (isErased_erase s) (isErased_erase t)

/-- A result takes the secret of a state: it is refused exactly if the secret was erased. -/
structure TakesSecret (s : KeyState) (x : Except Failure Bytes) : Prop where
  refused : s.IsErased → x = .error (.identity (.erased s.keyType))
  granted : ¬ s.IsErased → ∀ t, x ≠ .error (.identity (.erased t))

/-- Signing takes the secret. -/
theorem TakesSecret.sign (s : KeyState) (randomness : Randomness) (message : Bytes) :
    s.TakesSecret (s.sign randomness message) where
  refused := (s.sign_eq_erased_iff randomness message).mpr
  granted herased t := by
    obtain ⟨k, hk⟩ := s.isErased_or_keypair.resolve_left herased
    rw [KeyState.sign, hk]
    exact k.sign_ne_erased randomness message t

/-- Whatever is computed from the keypair of a state takes the secret. -/
theorem TakesSecret.map (s : KeyState) (f : Keypair → Bytes) :
    s.TakesSecret ((s.keypair.map f).mapError Failure.identity) where
  refused herased := by
    rw [(s.map_keypair_eq_erased_iff f).mpr herased]
    rfl
  granted herased t := by
    obtain ⟨k, hk⟩ := s.isErased_or_keypair.resolve_left herased
    rw [hk]
    exact nofun

end KeyState

namespace Vault

/-! ## Visible answers -/

/-- Whether an answer says that there is no keypair, or that its secret was erased. -/
def Answer.isRefusal : Answer → Bool
  | noKeypair => true
  | failed (.identity (.erased _)) => true
  | _ => false

/-- An answer, if it is a refusal. -/
def Answer.refusal? (a : Answer) : Option Answer :=
  if a.isRefusal then some a else none

/-- An answer, unless it was made from a secret. The refusal of a signature or of an encoding is
visible, the signature or encoding itself is not. -/
def visible : Request → Answer → Option Answer
  | .sign .., a | .encode _, a | .rawBytes _, a => a.refusal?
  | _, a => some a

/-- The visible answers to a list of requests to the vault without keypairs. -/
def shown (rs : List Request) : List (Option Answer) :=
  List.zipWith visible rs (empty.run rs).1

/-- Only what takes the secret has an answer that is not visible. -/
theorem visible_eq_or (r : Request) (a : Answer) :
    visible r a = some a ∨ visible r a = none ∧ a.isRefusal = false ∧ ∃ h, r.NeedsSecret h := by
  have hhidden (hr : ∃ h, r.NeedsSecret h) :
      a.refusal? = some a ∨ a.refusal? = none ∧ a.isRefusal = false ∧ ∃ h, r.NeedsSecret h := by
    rw [Answer.refusal?]
    cases a.isRefusal with
    | true => exact .inl rfl
    | false => exact .inr ⟨rfl, rfl, hr⟩
  cases r with
  | sign h randomness message => exact hhidden ⟨h, .sign randomness message⟩
  | encode h => exact hhidden ⟨h, .encode⟩
  | rawBytes h => exact hhidden ⟨h, .rawBytes⟩
  | _ => exact .inl rfl

/-- Bytes, and failures other than that of an erased secret, are no refusals. -/
theorem isRefusal_ofBytes {x : Except Failure Bytes}
    (hx : ∀ t, x ≠ .error (.identity (.erased t))) : (Answer.ofBytes x).isRefusal = false := by
  cases x with
  | ok b => rfl
  | error failure =>
    cases failure with
    | engine fault => rfl
    | identity e =>
      cases e with
      | erased t => exact absurd rfl (hx t)
      | _ => rfl

/-- States that agree refuse what takes the secret alike, and what they do not refuse is not
visible. -/
theorem refusal?_ofBytes_congr {s t : KeyState} (h : s.Agrees t) {x y : Except Failure Bytes}
    (hx : s.TakesSecret x) (hy : t.TakesSecret y) :
    (Answer.ofBytes x).refusal? = (Answer.ofBytes y).refusal? := by
  -- Either both secrets are erased, and the errors name one algorithm, or neither is, and nothing
  -- shows.
  by_cases herased : s.IsErased
  · rw [hx.refused herased, hy.refused (h.isErased_iff.mp herased), h.keyType_eq]
  · have herased' : ¬ t.IsErased := fun ht => herased (h.isErased_iff.mpr ht)
    rw [Answer.refusal?, isRefusal_ofBytes (hx.granted herased), Answer.refusal?,
      isRefusal_ofBytes (hy.granted herased')]
    rfl

/-! ## Vaults that agree -/

/-- Two vaults hold keypairs that agree, in the same slots and under the same handles. -/
structure Agrees (v w : Vault) : Prop where
  handles_eq : v.handles = w.handles
  length_eq : v.states.length = w.states.length
  states {i : Nat} {s t : KeyState} : v.states[i]? = some s → w.states[i]? = some t → s.Agrees t

variable {v w : Vault}

/-- The vault without keypairs agrees with itself. -/
theorem agrees_empty : empty.Agrees empty where
  handles_eq := rfl
  length_eq := rfl
  states hs := nomatch hs

/-- Vaults that agree have the same slots in use. -/
theorem Agrees.inUse_iff (h : v.Agrees w) (slot : Nat) : v.InUse slot ↔ w.InUse slot := by
  rw [InUse, InUse, h.handles_eq]

/-- A handle refers to states that agree, or to none on either side. -/
theorem Agrees.get?_cases (h : v.Agrees w) (g : Handle) :
    (v.get? g = none ∧ w.get? g = none) ∨
      ∃ s t, g ∈ v.handles ∧ v.get? g = some s ∧ w.get? g = some t ∧ s.Agrees t := by
  by_cases hg : g ∈ v.handles
  · obtain ⟨s, hs, hstate⟩ := exists_get?_of_mem hg
    obtain ⟨t, ht, hstate'⟩ := exists_get?_of_mem (h.handles_eq ▸ hg)
    exact .inr ⟨s, t, hg, hs, ht, h.states hstate hstate'⟩
  · exact .inl ⟨get?_of_not_mem hg, get?_of_not_mem (h.handles_eq ▸ hg)⟩

/-- Vaults that agree still do when keypairs with one public key are added, and give them one
handle. -/
theorem Agrees.add (h : v.Agrees w) {k l : Keypair} (hkey : k.publicKey = l.publicKey) :
    (v.add k).1 = (w.add l).1 ∧ (v.add k).2.Agrees (w.add l).2 := by
  have hhandle : (v.add k).1 = (w.add l).1 := congrArg (Handle.mk · false) h.length_eq
  refine ⟨hhandle, ?_, ?_, ?_⟩
  · exact congrArg₂ List.cons hhandle h.handles_eq
  · simp [Vault.add, h.length_eq]
  · intro i s t hs ht
    by_cases hi : i < v.states.length
    · -- The keypairs that were there before stand where they stood.
      rw [Vault.add, List.getElem?_append_left hi] at hs
      rw [Vault.add, List.getElem?_append_left (h.length_eq ▸ hi)] at ht
      exact h.states hs ht
    · rw [Vault.add, List.getElem?_append_right (Nat.le_of_not_lt hi)] at hs
      rw [Vault.add, List.getElem?_append_right (h.length_eq ▸ Nat.le_of_not_lt hi)] at ht
      obtain rfl := List.mem_singleton.mp (List.mem_of_getElem? hs)
      obtain rfl := List.mem_singleton.mp (List.mem_of_getElem? ht)
      exact KeyState.agrees_ofKeypair hkey

/-- Vaults that agree still do when a keypair is taken out of both under one handle. -/
theorem Agrees.share (h : v.Agrees w) {g : Handle} (hg : g ∈ v.handles) :
    (v.share g.specific).Agrees (w.share g.specific) where
  handles_eq := by rw [handles_share hg, handles_share (h.handles_eq ▸ hg), h.handles_eq]
  length_eq := by rw [states_share, states_share, h.length_eq]
  states hs ht := by
    rw [states_share] at hs ht
    exact h.states hs ht

/-- Vaults that agree still do when the secrets of one slot are erased. -/
theorem Agrees.erase (h : v.Agrees w) (slot : Nat) : (v.erase slot).Agrees (w.erase slot) where
  handles_eq := h.handles_eq
  length_eq := by simp [Vault.erase, h.length_eq]
  states {i s t} hs ht := by
    rw [getElem?_states_erase] at hs ht
    by_cases hi : slot = i
    · rw [if_pos hi] at hs ht
      obtain ⟨s', hs', rfl⟩ := Option.map_eq_some_iff.mp hs
      obtain ⟨t', ht', rfl⟩ := Option.map_eq_some_iff.mp ht
      exact (h.states hs' ht').erase
    · rw [if_neg hi] at hs ht
      exact h.states hs ht

/-- The handles that are left decide on both sides whether a secret is erased with the last one. -/
theorem Agrees.drop (h : v.Agrees w) (g : Handle) : (v.drop g).Agrees (w.drop g) := by
  have hrelease : (v.release g).Agrees (w.release g) :=
    ⟨congrArg (List.erase · g) h.handles_eq, h.length_eq, h.states⟩
  rw [Vault.drop, Vault.drop]
  by_cases hused : (v.release g).InUse g.slot
  · rw [if_pos hused, if_pos ((hrelease.inUse_iff _).mp hused)]
    exact hrelease
  · rw [if_neg hused, if_neg fun hw => hused ((hrelease.inUse_iff _).mpr hw)]
    exact hrelease.erase g.slot

/-! ## Runs that agree -/

namespace Request

/-- The keypair that a request adds. -/
def added? : Request → Option Keypair
  | decode b => (Keypair.decode b).toOption
  | decodeRaw t b => (Keypair.ofRaw t b).toOption
  | generate config t randomness => (Keypair.generate config t randomness).toOption
  | generateRsa bits randomness => (Keypair.generateRsa bits randomness).toOption
  | _ => none

/-- Two requests are the same, or they add keypairs with one public key. -/
def Agrees (r s : Request) : Prop :=
  r = s ∨ ∃ k l, r.added? = some k ∧ s.added? = some l ∧ k.publicKey = l.publicKey

end Request

/-- The answers and the vaults after two requests agree in all that is visible. -/
structure StepsAgree (r s : Request) (x y : Answer × Vault) : Prop where
  visible_eq : visible r x.1 = visible s y.1
  agrees : x.2.Agrees y.2

variable {r s : Request}

/-- The answer to a request that adds a keypair is visible. -/
theorem visible_of_added? {k : Keypair} (hr : r.added? = some k) (a : Answer) :
    visible r a = some a := by
  cases r with
  | decode | decodeRaw | generate | generateRsa => rfl
  | _ => cases hr

/-- A request that adds a keypair is answered by its handle. -/
theorem step_of_added? {k : Keypair} (hr : r.added? = some k) (v : Vault) :
    v.step r = (.handle (v.add k).1, (v.add k).2) := by
  cases r with
  | decode b => rw [step, toOption_eq_some_iff.mp hr]; rfl
  | decodeRaw t b => rw [step, toOption_eq_some_iff.mp hr]; rfl
  | generate config t randomness => rw [step, toOption_eq_some_iff.mp hr]; rfl
  | generateRsa bits randomness => rw [step, toOption_eq_some_iff.mp hr]; rfl
  | _ => cases hr

/-- Vaults that agree still do when the result of one decoding or generation is added to both. -/
theorem Agrees.addResult (h : v.Agrees w) (x : Except Failure Keypair) :
    StepsAgree r r (v.addResult x) (w.addResult x) := by
  cases x with
  | error failure => exact ⟨rfl, h⟩
  | ok k =>
    obtain ⟨hhandle, hadd⟩ := h.add (rfl : k.publicKey = k.publicKey)
    exact ⟨congrArg (fun g => visible r (.handle g)) hhandle, hadd⟩

/-- Requests about one keypair agree if they do so on states that agree. -/
theorem Agrees.onKeypair (h : v.Agrees w) {g : Handle} {f f' : KeyState → Answer × Vault}
    (hf : g ∈ v.handles → ∀ s t, s.Agrees t → StepsAgree r r (f s) (f' t)) :
    StepsAgree r r (v.onKeypair g f) (w.onKeypair g f') := by
  rw [Vault.onKeypair, Vault.onKeypair]
  rcases h.get?_cases g with ⟨hv, hw⟩ | ⟨s, t, hg, hv, hw, hst⟩
  · rw [hv, hw]
    exact ⟨rfl, h⟩
  · rw [hv, hw]
    exact hf hg s t hst

/-- One request to vaults that agree has one visible answer, and leaves vaults that agree. -/
theorem Agrees.step_same (h : v.Agrees w) (r : Request) :
    StepsAgree r r (v.step r) (w.step r) := by
  cases r with
  | decode | decodeRaw | generate | generateRsa => exact h.addResult _
  -- The public key answers, which is the same on both sides.
  | keyType g =>
    exact h.onKeypair fun _ s t hst => ⟨congrArg (some <| Answer.keyType ·) hst.keyType_eq, h⟩
  | publicKey g =>
    exact h.onKeypair fun _ s t hst => ⟨congrArg (some <| Answer.publicKey ·) hst.publicKey_eq, h⟩
  | peerId g =>
    exact h.onKeypair fun _ s t hst =>
      ⟨congrArg (some <| Answer.peerId <| PublicKey.peerId ·) hst.publicKey_eq, h⟩
  | describe g =>
    refine h.onKeypair fun _ s t hst => ⟨?_, h⟩
    have hdescribe : describeState g s = describeState g t := by
      rw [describeState, describeState, hst.publicKey_eq]
    exact congrArg (some <| Answer.text ·) hdescribe
  | into g t =>
    refine h.onKeypair fun hg s s' hst => ?_
    -- The algorithm decides whether a handle is handed out, and which error is raised otherwise.
    rw [into, into, hst.keyType_eq]
    split
    next => exact ⟨rfl, h.share hg⟩
    next => exact ⟨rfl, h⟩
  -- What is made from a secret shows only where it is refused.
  | sign g randomness message =>
    exact h.onKeypair fun _ s t hst =>
      ⟨refusal?_ofBytes_congr hst (.sign s randomness message) (.sign t randomness message), h⟩
  | encode g =>
    exact h.onKeypair fun _ s t hst =>
      ⟨refusal?_ofBytes_congr hst (.map s Keypair.encode) (.map t Keypair.encode), h⟩
  | rawBytes g =>
    exact h.onKeypair fun _ s t hst =>
      ⟨refusal?_ofBytes_congr hst (.map s Keypair.rawBytes) (.map t Keypair.rawBytes), h⟩
  -- Erasing and dropping go by slots and handles.
  | erase g | leave g => exact h.onKeypair fun _ _ _ _ => ⟨rfl, h.erase g.slot⟩
  | drop g => exact h.onKeypair fun _ _ _ _ => ⟨rfl, h.drop g⟩

/-- Requests that agree keep vaults in agreement, and have answers that agree. -/
theorem Agrees.step (h : v.Agrees w) (hr : r.Agrees s) : StepsAgree r s (v.step r) (w.step s) := by
  rcases hr with rfl | ⟨k, l, hk, hl, hkey⟩
  · exact h.step_same r
  -- Both requests add a keypair, and under the same handle.
  · obtain ⟨hhandle, hadd⟩ := h.add hkey
    rw [step_of_added? hk, step_of_added? hl]
    refine ⟨?_, hadd⟩
    rw [visible_of_added? hk, visible_of_added? hl, hhandle]

/-- Requests that agree have the same visible answers, however many there are. -/
theorem Agrees.run (h : v.Agrees w) {rs ss : List Request}
    (hrs : List.Forall₂ Request.Agrees rs ss) :
    List.zipWith visible rs (v.run rs).1 = List.zipWith visible ss (w.run ss).1 := by
  induction hrs generalizing v w with
  | nil => rfl
  | cons hr _ ih =>
    -- The rest of the run starts from vaults that agree.
    have hstep := h.step hr
    exact congrArg₂ List.cons hstep.visible_eq (ih hstep.agrees)

end Vault

/-! ## Keypairs with one public key -/

namespace Dilithium.Keypair

/-- A keypair with a given public key. Its secret has the seed and the hash that decoding checks,
and one byte in all other places. -/
def filled (publicKey : PublicKey) (x : UInt8) : Keypair where
  secret := publicKey.bytes.take 32 ++
    (List.replicate 32 x ++ (shake256 publicKey.bytes 64 ++ List.replicate 4768 x))
  publicKey
  isSecretOf := by
    have hseed : (publicKey.bytes.take 32).length = 32 := by
      rw [List.length_take, publicKey.length_bytes]
      rfl
    have hhash : (shake256 publicKey.bytes 64).length = 64 := length_shake256 _ _
    refine ⟨?_, List.take_left' hseed, ?_⟩
    · simp only [List.length_append, hseed, hhash, List.length_replicate]
      rfl
    -- The hash stands behind two parts of 32 bytes.
    · rw [HoldsHash, ← List.append_assoc, List.drop_left' (by simp [hseed]), List.take_left' hhash]

/-- The public key does not determine the secret. -/
theorem rawBytes_filled_ne (publicKey : PublicKey) {x y : UInt8} (h : x ≠ y) :
    (filled publicKey x).encode ≠ (filled publicKey y).encode := by
  intro hencode
  have hsecret := List.append_inj_left' hencode rfl
  have hrest := List.append_cancel_left hsecret
  exact h (List.cons.inj hrest).1

end Dilithium.Keypair

namespace Keypair

/-- Keypairs with one public key have the same public outputs, whatever their secrets are. In runs
of requests that agree but for such keypairs, everything is answered alike except what is made from
a secret that is at hand: the algorithm, the public key, the peer identifier, the texts that show
the keypair, whether it is handed out as a keypair of an algorithm, and all refusals, also those of
a keypair that was erased. The records are the same, and the commands that show a key show the same
of files that hold the keypairs. -/
theorem public_outputs_agree {data data' : Bytes} {k l : Keypair} (hk : decode data = .ok k)
    (hl : decode data' = .ok l) (hpublic : k.publicKey = l.publicKey) :
    (Vault.Request.decode data).Agrees (.decode data') ∧
    (∀ rs ss : List Vault.Request, List.Forall₂ Vault.Request.Agrees rs ss →
      Vault.shown rs = Vault.shown ss) ∧
    (∀ (r : Vault.Request) (a : Vault.Answer), Vault.visible r a = some a ∨
      Vault.visible r a = none ∧ a.isRefusal = false ∧ ∃ h, r.NeedsSecret h) ∧
    IdentityRecord.ofPublicKey k.publicKey = IdentityRecord.ofPublicKey l.publicKey ∧
    (∀ command ∈ [(Command.inspect · false), (Command.peerId · false), (Command.peerId · true)],
      ∀ (r s : Run) (t u : FileTree) (path path' : Path),
        Executes r.args (command path) → Executes s.args (command path') →
        t.read path = .ok data → u.read path' = .ok data' →
        (r.on t).1.exit = 0 ∧ (s.on u).1.exit = 0 ∧ (r.on t).1.stdout = (s.on u).1.stdout) := by
  refine ⟨.inr ⟨k, l, ?_, ?_, hpublic⟩, fun rs ss hrs => Vault.agrees_empty.run hrs,
    Vault.visible_eq_or, congrArg IdentityRecord.ofPublicKey hpublic, ?_⟩
  · rw [Vault.Request.added?, hk]
    rfl
  · rw [Vault.Request.added?, hl]
    rfl
  -- What a command shows is computed from the public key of the keypair that it reads.
  · have hshow (text : PublicKey → String) {r s : Run} {t u : FileTree} {path path' : Path}
        (hr : r.ShowsFile t path decode fun k => text k.publicKey)
        (hs : s.ShowsFile u path' decode fun k => text k.publicKey)
        (ht : t.read path = .ok data) (hu : u.read path' = .ok data') :
        (r.on t).1.exit = 0 ∧ (s.on u).1.exit = 0 ∧ (r.on t).1.stdout = (s.on u).1.stdout := by
      refine ⟨hr.exit_eq_zero_iff.mpr ⟨data, k, ht, hk⟩,
        hs.exit_eq_zero_iff.mpr ⟨data', l, hu, hl⟩, ?_⟩
      rw [hr.stdout ht hk, hs.stdout hu hl, hpublic]
    intro command hcommand r s t u path path' hr hs
    simp only [List.mem_cons, List.not_mem_nil, or_false] at hcommand
    rcases hcommand with rfl | rfl | rfl
    · exact hshow Command.showRecord (Run.inspect_showsFile hr t) (Run.inspect_showsFile hs u)
    · exact hshow (·.peerId.toBase58) (Run.peerId_showsFile hr t) (Run.peerId_showsFile hs u)
    · exact hshow (·.peerId.toCid) (Run.peerId_showsFile hr t) (Run.peerId_showsFile hs u)

/-- Two ML-DSA keypairs have one public key and different encodings. They are shown alike, and
refuse their encodings alike once they are erased, and so are the files that hold them. -/
theorem public_outputs_agree_filled :
    let publicKey : Dilithium.PublicKey := ⟨List.replicate 2592 0, List.length_replicate⟩
    let k := Keypair.dilithium (.filled publicKey 0)
    let l := Keypair.dilithium (.filled publicKey 1)
    let requests (b : Bytes) : List Vault.Request :=
      [.decode b, .describe ⟨0, false⟩, .encode ⟨0, false⟩, .erase ⟨0, false⟩, .encode ⟨0, false⟩]
    let r : Run := ⟨.standard, .ok [], ["inspect", "node.key"]⟩
    let tree (b : Bytes) : FileTree :=
      { nodes := [(["node.key"], .file b FileTree.privateMode)] }
    k.encode ≠ l.encode ∧ Vault.shown (requests k.encode) = Vault.shown (requests l.encode) ∧
      (r.on (tree k.encode)).1.exit = 0 ∧
      (r.on (tree k.encode)).1.stdout = (r.on (tree l.encode)).1.stdout := by
  intro publicKey k l requests r tree
  obtain ⟨hdecode, hshown, -, -, hcommands⟩ :=
    public_outputs_agree k.decode_encode l.decode_encode rfl
  have hrequests : List.Forall₂ Vault.Request.Agrees (requests k.encode) (requests l.encode) :=
    .cons hdecode (List.forall₂_same.mpr fun _ _ => .inl rfl)
  have hparse : Executes r.args (.inspect ⟨"", ["node.key"]⟩ false) := ⟨{}, by decide⟩
  obtain ⟨hexit, -, hstdout⟩ := hcommands _ (List.mem_cons_self ..) r r (tree k.encode)
    (tree l.encode) _ _ hparse hparse rfl rfl
  refine ⟨fun hencode => ?_, hshown _ _ hrequests, hexit, hstdout⟩
  have hraw := (Envelope.mk.inj (Envelope.encode_injective hencode)).2
  exact Dilithium.Keypair.rawBytes_filled_ne publicKey (by decide) hraw

end Keypair

end PeerIdentity
