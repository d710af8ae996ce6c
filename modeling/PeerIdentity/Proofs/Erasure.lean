import PeerIdentity.Proofs.Result
import PeerIdentity.Vault

/-!
# Erasure of secrets

A secret is erased once and for all. Whether a keypair refuses to sign and to be encoded is
decided by the requests before: it refuses exactly when one of them erased it, through whichever
handle. Nothing else is touched. The public half answers as before, the other handles stay in use,
and the other keypairs answer as if the requests had not been made.

Main results:

* `Vault.effect_step`: what one request can do to a vault;
* `Vault.isErased_run_iff`: the keypairs that a run erases;
* `Vault.answersOn_run`: the answers of a keypair do not depend on requests to others;
* `Vault.erasure_permanent_and_isolated`: what a run of any length says of a handle in use.
-/

namespace PeerIdentity

/-! ## One keypair -/

/-- No signature fails for an erased secret while there is a keypair to sign with. -/
theorem Keypair.sign_ne_erased (k : Keypair) (randomness : Randomness) (message : Bytes)
    (t : KeyType) : k.sign randomness message ≠ .error (.identity (.erased t)) := by
  have hsigned (u : KeyType) (x : Option Bytes) :
      signed u x ≠ .error (.identity (.erased t)) := by
    cases x <;> simp [signed]
  rw [sign.eq_def]
  cases k with
  | rsa k => simp
  | ed25519 k => simp
  | secp256k1 k => exact hsigned _ _
  | ecdsa k => exact hsigned _ _
  | dilithium k =>
    cases randomness with
    | ok random => exact hsigned _ _
    | error fault =>
      simp only [signFailure]
      split <;> simp

namespace KeyState

/-- Whether the secret was erased. -/
def IsErased (s : KeyState) : Prop :=
  s.keypair = .error (.erased s.keyType)

/-- A keypair is at hand, or its secret was erased. -/
theorem isErased_or_keypair (s : KeyState) : s.IsErased ∨ ∃ k, s.keypair = .ok k := by
  rcases s with ⟨k, _ | key, _⟩ | ⟨k, secret, isSecretOf⟩
  · exact .inl rfl
  · exact .inr ⟨key, rfl⟩
  · by_cases hsecret : secret = []
    · exact .inl (dif_pos hsecret)
    · exact .inr ⟨_, dif_neg hsecret⟩

/-- A keypair that was added has its secret. The buffer of an ML-DSA secret is not empty. -/
theorem not_isErased_ofKeypair (k : Keypair) : ¬ (ofKeypair k).IsErased := by
  cases k with
  | dilithium k =>
    have hsecret : k.secret ≠ [] := by
      intro hnil
      have := k.isSecretOf.length_secret
      rw [hnil] at this
      exact absurd this (by decide)
    simp [IsErased, ofKeypair, keypair, hsecret]
  | _ => simp [IsErased, ofKeypair, keypair]

/-- The public key stays when the secret is erased. -/
@[simp]
theorem publicKey_erase (s : KeyState) : s.erase.publicKey = s.publicKey := by
  cases s <;> rfl

/-- A secret that is to be erased is erased. -/
theorem isErased_erase (s : KeyState) : s.erase.IsErased := by
  cases s <;> rfl

/-- Erasing an erased secret changes nothing. -/
theorem erase_of_isErased {s : KeyState} (h : s.IsErased) : s.erase = s := by
  rcases s with ⟨k, _ | key, _⟩ | ⟨k, secret, isSecretOf⟩
  · rfl
  · simp [IsErased, keypair] at h
  · by_cases hsecret : secret = []
    · subst hsecret
      rfl
    · simp [IsErased, keypair, hsecret] at h

/-- What is computed from the keypair fails for an erased secret exactly when it was erased. -/
theorem map_keypair_eq_erased_iff {α : Type} (s : KeyState) (f : Keypair → α) :
    s.keypair.map f = .error (.erased s.keyType) ↔ s.IsErased := by
  rw [IsErased]
  cases s.keypair <;> simp [Except.map]

/-- A signature is refused for an erased secret exactly if the secret was erased. -/
theorem sign_eq_erased_iff (s : KeyState) (randomness : Randomness) (message : Bytes) :
    s.sign randomness message = .error (.identity (.erased s.keyType)) ↔ s.IsErased := by
  rw [IsErased, sign]
  cases s.keypair with
  | error e => simp
  | ok k => simp [k.sign_ne_erased]

end KeyState

namespace Vault

/-! ## One request -/

namespace Request

/-- The handle that a request is made through. -/
def handle? : Request → Option Handle
  | decode _ | decodeRaw .. | generate .. | generateRsa .. => none
  | into h _ | sign h .. | encode h | rawBytes h | keyType h | publicKey h | peerId h | describe h
  | erase h | leave h | drop h => some h

/-- The slot of the keypair that a request is about. -/
def slot? (r : Request) : Option Nat :=
  r.handle?.map Handle.slot

/-- The slot of the keypair whose secret a request is to erase. -/
def erasedSlot? : Request → Option Nat
  | erase h | leave h => some h.slot
  | _ => none

/-- Whether a request through a handle asks for something that takes the secret. -/
inductive NeedsSecret (h : Handle) : Request → Prop
  | sign (randomness : Randomness) (message : Bytes) : NeedsSecret h (.sign h randomness message)
  | encode : NeedsSecret h (.encode h)
  | rawBytes : NeedsSecret h (.rawBytes h)

/-- Whether a request through a handle asks for something that the public half tells. -/
inductive IsPublic (h : Handle) : Request → Prop
  | keyType : IsPublic h (.keyType h)
  | publicKey : IsPublic h (.publicKey h)
  | peerId : IsPublic h (.peerId h)
  | describe : IsPublic h (.describe h)

end Request

/-- What a request can do to a vault, with its answer and the vault after it. -/
inductive Effect (v : Vault) : Request → Answer → Vault → Prop
  | unchanged {r : Request} {a : Answer} (h : r.erasedSlot? = none ∨ a = .noKeypair) :
      Effect v r a v
  | added {r : Request} (k : Keypair) (h : r.slot? = none) :
      Effect v r (.handle (v.add k).1) (v.add k).2
  | shared {h : Handle} {t : KeyType} (hmem : h ∈ v.handles) :
      Effect v (.into h t) (.handle h.specific) (v.share h.specific)
  | erased {r : Request} {h : Handle} (hr : r = .erase h ∨ r = .leave h) (hmem : h ∈ v.handles) :
      Effect v r .done (v.erase h.slot)
  | dropped {h : Handle} (hmem : h ∈ v.handles) : Effect v (.drop h) .done (v.drop h)

/-- A handle that is not in use leads to no keypair. -/
theorem get?_of_not_mem {v : Vault} {h : Handle} (hmem : h ∉ v.handles) : v.get? h = none :=
  if_neg hmem

/-- A handle in use refers to a keypair. -/
theorem exists_get?_of_mem {v : Vault} {h : Handle} (hmem : h ∈ v.handles) :
    ∃ s, v.get? h = some s ∧ v.states[h.slot]? = some s := by
  have hslot := List.getElem?_eq_getElem (v.slot_lt h hmem)
  exact ⟨_, by rw [get?, if_pos hmem, hslot], hslot⟩

/-- A result that is added has the effect of a new keypair, or none if it is an error. -/
theorem effect_addResult {v : Vault} {r : Request} (x : Except Failure Keypair)
    (hr : r.slot? = none) (herase : r.erasedSlot? = none) :
    Effect v r (v.addResult x).1 (v.addResult x).2 := by
  cases x with
  | error failure => exact .unchanged (.inl herase)
  | ok k => exact .added k hr

/-- A request through a handle has the effect that it has on the keypair of a handle in use. -/
theorem effect_onKeypair {v : Vault} {r : Request} {h : Handle}
    {answer : KeyState → Answer × Vault}
    (heffect : h ∈ v.handles → ∀ s, Effect v r (answer s).1 (answer s).2) :
    Effect v r (v.onKeypair h answer).1 (v.onKeypair h answer).2 := by
  by_cases hmem : h ∈ v.handles
  · obtain ⟨s, hget, -⟩ := exists_get?_of_mem hmem
    simpa [onKeypair, hget] using heffect hmem s
  · rw [onKeypair, get?_of_not_mem hmem]
    exact .unchanged (.inr rfl)

/-- Looking at a keypair changes nothing. -/
theorem effect_observe {v : Vault} {r : Request} {h : Handle} {answer : KeyState → Answer}
    (herase : r.erasedSlot? = none) :
    Effect v r (v.observe h answer).1 (v.observe h answer).2 :=
  effect_onKeypair fun _ _ => .unchanged (.inl herase)

/-- Every request has one of the effects. -/
theorem effect_step (v : Vault) (r : Request) : Effect v r (v.step r).1 (v.step r).2 := by
  cases r with
  | decode b => exact effect_addResult _ rfl rfl
  | decodeRaw t b => exact effect_addResult _ rfl rfl
  | generate config t randomness => exact effect_addResult _ rfl rfl
  | generateRsa bits randomness => exact effect_addResult _ rfl rfl
  | into h t =>
    refine effect_onKeypair fun hmem s => ?_
    rw [into]
    split
    next => exact .shared hmem
    next => exact .unchanged (.inl rfl)
  | erase h => exact effect_onKeypair fun hmem _ => .erased (.inl rfl) hmem
  | leave h => exact effect_onKeypair fun hmem _ => .erased (.inr rfl) hmem
  | drop h => exact effect_onKeypair fun hmem _ => .dropped hmem
  | sign | encode | rawBytes | keyType | publicKey | peerId | describe =>
    exact effect_observe rfl

/-- The handle of a keypair that was taken out leads to the same slot. -/
@[simp]
theorem slot_specific (h : Handle) : h.specific.slot = h.slot :=
  rfl

/-- No state changes when a keypair is taken out. -/
@[simp]
theorem states_share (v : Vault) (h : Handle) : (v.share h).states = v.states := by
  rw [share]
  split <;> rfl

/-- A keypair that is taken out has a handle more. -/
theorem handles_share {v : Vault} {h : Handle} (hmem : h ∈ v.handles) :
    (v.share h.specific).handles = h.specific :: v.handles :=
  congrArg handles (dif_pos (v.slot_lt h hmem))

/-- A handle that is given up is no longer in use, and the others are. -/
@[simp]
theorem handles_drop (v : Vault) (h : Handle) : (v.drop h).handles = v.handles.erase h := by
  rw [drop]
  split <;> rfl

/-- Giving up a handle leaves the keypairs as they are, unless it was the last one to its slot. -/
theorem states_drop (v : Vault) (h : Handle) :
    (v.drop h).states =
      if (v.drop h).InUse h.slot then v.states else (v.erase h.slot).states := by
  have hused : (v.drop h).InUse h.slot ↔ (v.release h).InUse h.slot := by
    rw [InUse, handles_drop]
    rfl
  simp only [hused]
  rw [drop]
  split <;> rfl

/-- No slot goes away when a handle is given up. -/
@[simp]
theorem length_states_drop (v : Vault) (h : Handle) :
    (v.drop h).states.length = v.states.length := by
  rw [states_drop]
  split <;> simp [erase]

/-- Erasing the secret in a slot is a change of the keypair in that slot. -/
theorem getElem?_states_erase (v : Vault) (slot i : Nat) :
    (v.erase slot).states[i]? =
      if slot = i then v.states[i]?.map KeyState.erase else v.states[i]? := by
  rw [erase, List.getElem?_modify]
  split <;> simp

/-- No request takes a keypair away. -/
theorem length_states_of_effect {v w : Vault} {r : Request} {a : Answer} (h : Effect v r a w) :
    v.states.length ≤ w.states.length := by
  cases h <;> simp [add, erase]

/-! ## Erased secrets -/

/-- Whether the secret in a slot was erased. -/
def IsErased (v : Vault) (slot : Nat) : Prop :=
  ∃ s, v.states[slot]? = some s ∧ s.IsErased

/-- The secret in a slot was erased exactly if the state that stands there says so. -/
theorem isErased_iff_of_state {v : Vault} {slot : Nat} {s : KeyState}
    (hs : v.states[slot]? = some s) : v.IsErased slot ↔ s.IsErased := by
  simp [IsErased, hs]

/-- Whether a slot has a handle in use or was not given out yet. A slot without handles stays so,
hence what holds of the open slots after a run holds of them all along the run. -/
def IsOpen (v : Vault) (slot : Nat) : Prop :=
  v.InUse slot ∨ v.states.length ≤ slot

/-- Whether one of the requests erased the secret in a slot: it was to erase it, and the answer
says that it was done. -/
def Erases (slot : Nat) (rs : List Request) (answers : List Answer) : Prop :=
  ∃ p ∈ rs.zip answers, p.1.erasedSlot? = some slot ∧ p.2 = .done

instance (slot : Nat) (rs : List Request) (answers : List Answer) :
    Decidable (Erases slot rs answers) :=
  inferInstanceAs (Decidable (∃ p ∈ rs.zip answers, _))

/-- A slot that is open after a request was open before it. -/
theorem isOpen_of_effect {v w : Vault} {r : Request} {a : Answer} {slot : Nat}
    (h : Effect v r a w) (hopen : w.IsOpen slot) : v.IsOpen slot := by
  -- A handle that is in use afterwards was so before, or its slot is new, or it shares the slot of
  -- one that was.
  obtain ⟨g, hg, hslot⟩ | hlength := hopen
  · cases h with
    | unchanged => exact .inl ⟨g, hg, hslot⟩
    | added k =>
      rcases List.mem_cons.mp hg with rfl | hg
      · exact .inr (Nat.le_of_eq hslot)
      · exact .inl ⟨g, hg, hslot⟩
    | @shared h t hmem =>
      rw [handles_share hmem] at hg
      rcases List.mem_cons.mp hg with rfl | hg
      · exact .inl ⟨h, hmem, hslot⟩
      · exact .inl ⟨g, hg, hslot⟩
    | erased => exact .inl ⟨g, hg, hslot⟩
    | dropped =>
      rw [handles_drop] at hg
      exact .inl ⟨g, List.mem_of_mem_erase hg, hslot⟩
  · exact .inr (Nat.le_trans (length_states_of_effect h) hlength)

/-- A vault with the same keypairs has the same secrets erased. -/
theorem isErased_congr {v w : Vault} {slot : Nat} (h : w.states[slot]? = v.states[slot]?) :
    w.IsErased slot ↔ v.IsErased slot := by
  rw [IsErased, IsErased, h]

/-- A new keypair is not erased, and adding it erases none. -/
theorem isErased_add_iff (v : Vault) (k : Keypair) (slot : Nat) :
    (v.add k).2.IsErased slot ↔ v.IsErased slot := by
  by_cases hslot : slot < v.states.length
  · exact isErased_congr (List.getElem?_append_left hslot)
  · have hnone : v.states[slot]? = none := List.getElem?_eq_none (Nat.le_of_not_lt hslot)
    have hadded : (v.add k).2.states[slot]? = [KeyState.ofKeypair k][slot - v.states.length]? :=
      List.getElem?_append_right (Nat.le_of_not_lt hslot)
    simp only [IsErased, hnone, hadded, List.getElem?_singleton]
    split <;> simp [KeyState.not_isErased_ofKeypair]

/-- One secret is erased, and the others are as they were. -/
theorem isErased_erase_iff {v : Vault} {slot : Nat} (hslot : slot < v.states.length) (i : Nat) :
    (v.erase slot).IsErased i ↔ v.IsErased i ∨ slot = i := by
  by_cases hi : slot = i
  · subst hi
    simp [IsErased, getElem?_states_erase, List.getElem?_eq_getElem hslot,
      KeyState.isErased_erase]
  · simp [IsErased, getElem?_states_erase, hi]

/-- The secrets that one request erases, among those that a handle can still tell of. -/
theorem isErased_iff_of_effect {v w : Vault} {r : Request} {a : Answer} {slot : Nat}
    (h : Effect v r a w) (hopen : w.IsOpen slot) :
    w.IsErased slot ↔ v.IsErased slot ∨ r.erasedSlot? = some slot ∧ a = .done := by
  cases h with
  | unchanged h =>
    rcases h with h | h <;> simp [h]
  | added k h =>
    rw [isErased_add_iff]
    simp
  | @shared h t hmem =>
    rw [isErased_congr (v := v) (by rw [states_share])]
    simp [Request.erasedSlot?]
  | @erased _ h hr hmem =>
    rw [isErased_erase_iff (v.slot_lt h hmem)]
    rcases hr with rfl | rfl <;> simp [Request.erasedSlot?]
  | @dropped h hmem =>
    have hstates : (v.drop h).states[slot]? = v.states[slot]? := by
      rw [states_drop]
      split
      next => rfl
      next hlast =>
        -- The slot that was erased is neither in use nor free.
        have hslot : h.slot ≠ slot := by
          rintro rfl
          have hlt := v.slot_lt h hmem
          have hlength := v.length_states_drop h
          obtain hused | hfree := hopen
          · exact hlast hused
          · omega
        rw [getElem?_states_erase, if_neg hslot]
    rw [isErased_congr hstates]
    simp [Request.erasedSlot?]

/-- A slot that is open after a run was open before it. -/
theorem isOpen_of_run (v : Vault) {slot : Nat} (rs : List Request)
    (hopen : (v.run rs).2.IsOpen slot) : v.IsOpen slot := by
  induction rs generalizing v with
  | nil => exact hopen
  | cons r rs ih => exact isOpen_of_effect (v.effect_step r) (ih _ hopen)

/-- The secrets that a run erases, among those that a handle can still tell of. -/
theorem isErased_run_iff (v : Vault) (rs : List Request) (slot : Nat)
    (hopen : (v.run rs).2.IsOpen slot) :
    (v.run rs).2.IsErased slot ↔ v.IsErased slot ∨ Erases slot rs (v.run rs).1 := by
  induction rs generalizing v with
  | nil => simp [run, Erases]
  | cons r rs ih =>
    have heffect := v.effect_step r
    have hrest := ih (v.step r).2 hopen
    have hstep := isErased_iff_of_effect heffect (isOpen_of_run _ _ hopen)
    -- The secret was erased by the first request or by one of the others.
    have herases : Erases slot (r :: rs) (v.run (r :: rs)).1 ↔
        (r.erasedSlot? = some slot ∧ (v.step r).1 = .done) ∨
          Erases slot rs ((v.step r).2.run rs).1 := by
      simp [Erases, run]
    rw [herases, ← or_assoc, ← hstep]
    exact hrest

/-! ## One slot among many -/

/-- What a vault holds for a slot: its keypair, and the handles to it. -/
def view (v : Vault) (slot : Nat) : Option KeyState × List Handle :=
  (v.states[slot]?, v.handles.filter (·.slot = slot))

/-- The handles to a slot decide whether it is in use. -/
theorem inUse_iff_view {v : Vault} {slot : Nat} : v.InUse slot ↔ (v.view slot).2 ≠ [] := by
  simp [InUse, view, List.filter_eq_nil_iff]

/-- A handle is in use exactly if it is one of those to its slot. -/
theorem mem_handles_iff_view {v : Vault} {h : Handle} :
    h ∈ v.handles ↔ h ∈ (v.view h.slot).2 := by
  simp [view]

/-- What a vault holds for a slot decides what a handle to it refers to. -/
theorem get?_eq_view (v : Vault) (h : Handle) :
    v.get? h = if h ∈ (v.view h.slot).2 then (v.view h.slot).1 else none := by
  simp [get?, view]

/-- A new keypair changes nothing about the slots that are there. -/
theorem view_add (v : Vault) (k : Keypair) {slot : Nat} (hslot : slot < v.states.length) :
    (v.add k).2.view slot = v.view slot := by
  have hne : v.states.length ≠ slot := by omega
  simp [view, add, hne, List.getElem?_append_left hslot]

/-- A keypair that is taken out has a handle more, and no other slot changes. -/
theorem view_share {v : Vault} {h : Handle} (hmem : h ∈ v.handles) (slot : Nat) :
    (v.share h.specific).view slot =
      ((v.view slot).1,
        if h.slot = slot then h.specific :: (v.view slot).2 else (v.view slot).2) := by
  simp only [view, states_share, handles_share hmem, List.filter_cons, decide_eq_true_eq]
  rfl

/-- Erasing a secret changes the state of one slot, and no handles. -/
theorem view_erase (v : Vault) (erased slot : Nat) :
    (v.erase erased).view slot =
      (if erased = slot then (v.view slot).1.map KeyState.erase else (v.view slot).1,
        (v.view slot).2) := by
  rw [view, getElem?_states_erase]
  rfl

/-- Giving up a handle erases a secret if it was the last one to the slot. -/
theorem view_drop (v : Vault) (h : Handle) (slot : Nat) :
    (v.drop h).view slot =
      (if h.slot = slot ∧ (v.view slot).2.erase h = [] then (v.view slot).1.map KeyState.erase
        else (v.view slot).1,
        (v.view slot).2.erase h) := by
  have hhandles (i : Nat) : ((v.drop h).view i).2 = (v.view i).2.erase h := by
    rw [view, handles_drop, ← List.erase_filter]
    rfl
  -- The keypair is erased if no handle to its slot is left.
  have hused : (v.drop h).InUse h.slot ↔ (v.view h.slot).2.erase h ≠ [] := by
    rw [inUse_iff_view, hhandles]
  refine Prod.ext ?_ (hhandles slot)
  change (v.drop h).states[slot]? = if _ then _ else _
  rw [states_drop]
  by_cases hlast : (v.view h.slot).2.erase h = []
  · rw [if_neg (fun h => hused.mp h hlast), getElem?_states_erase]
    by_cases hslot : h.slot = slot
    · subst hslot
      rw [if_pos rfl, if_pos ⟨rfl, hlast⟩, view]
    · rw [if_neg hslot, if_neg (fun h => hslot h.1), view]
  · rw [if_pos (hused.mpr hlast)]
    have hslot : ¬ (h.slot = slot ∧ (v.view slot).2.erase h = []) := by
      rintro ⟨rfl, h⟩
      exact hlast h
    rw [if_neg hslot, view]

/-- A request about another slot leaves a slot as it is. -/
theorem view_of_effect {v w : Vault} {r : Request} {a : Answer} {slot : Nat}
    (h : Effect v r a w) (hr : r.slot? ≠ some slot) (hslot : slot < v.states.length) :
    w.view slot = v.view slot := by
  cases h with
  | unchanged => rfl
  | added k => exact view_add v k hslot
  | @shared h t hmem =>
    have hne : h.slot ≠ slot := by simpa [Request.slot?, Request.handle?] using hr
    rw [view_share hmem, if_neg hne]
  | @erased _ h herase hmem =>
    have hne : h.slot ≠ slot := by
      rcases herase with rfl | rfl <;> simpa [Request.slot?, Request.handle?] using hr
    rw [view_erase, if_neg hne]
  | @dropped h hmem =>
    have hne : h.slot ≠ slot := by simpa [Request.slot?, Request.handle?] using hr
    -- The handle that is given up refers to another slot.
    have hother : h ∉ (v.view slot).2 := by simp [view, hne]
    rw [view_drop, List.erase_of_not_mem hother]
    simp [hne]

/-- Two vaults that hold the same for a slot answer alike about it, and still hold the same for
it. -/
theorem onKeypair_congr {v w : Vault} {h : Handle} (hview : v.view h.slot = w.view h.slot)
    {f g : KeyState → Answer × Vault}
    (hfg : h ∈ v.handles → h ∈ w.handles → ∀ s,
      (f s).1 = (g s).1 ∧ (f s).2.view h.slot = (g s).2.view h.slot) :
    (v.onKeypair h f).1 = (w.onKeypair h g).1 ∧
      (v.onKeypair h f).2.view h.slot = (w.onKeypair h g).2.view h.slot := by
  have hget : v.get? h = w.get? h := by rw [get?_eq_view, get?_eq_view, hview]
  by_cases hv : h ∈ v.handles
  · have hw : h ∈ w.handles := by rwa [mem_handles_iff_view, ← hview, ← mem_handles_iff_view]
    obtain ⟨s, hs, -⟩ := exists_get?_of_mem hv
    simpa [onKeypair, ← hget, hs] using hfg hv hw s
  · rw [onKeypair, onKeypair, ← hget, get?_of_not_mem hv]
    exact ⟨rfl, hview⟩

/-- Vaults that hold the same for a slot answer a request about it alike, and hold the same for it
afterwards. -/
theorem step_congr {v w : Vault} {slot : Nat} (hview : v.view slot = w.view slot) {r : Request}
    (hr : r.slot? = some slot) :
    (v.step r).1 = (w.step r).1 ∧ (v.step r).2.view slot = (w.step r).2.view slot := by
  -- Requests for new keypairs are about no slot, and all others go through a handle.
  cases r with
  | decode | decodeRaw | generate | generateRsa => simp [Request.slot?, Request.handle?] at hr
  | sign h | encode h | rawBytes h | keyType h | publicKey h | peerId h | describe h =>
    obtain rfl := Option.some.inj hr
    exact onKeypair_congr hview fun _ _ _ => ⟨rfl, hview⟩
  | erase h | leave h =>
    obtain rfl := Option.some.inj hr
    exact onKeypair_congr hview fun _ _ _ => ⟨rfl, by rw [view_erase, view_erase, hview]⟩
  | drop h =>
    obtain rfl := Option.some.inj hr
    exact onKeypair_congr hview fun _ _ _ => ⟨rfl, by rw [view_drop, view_drop, hview]⟩
  | into h t =>
    obtain rfl := Option.some.inj hr
    refine onKeypair_congr hview fun hv hw s => ?_
    rw [into, into]
    split
    next => exact ⟨rfl, by rw [view_share hv, view_share hw, hview]⟩
    next => exact ⟨rfl, hview⟩

/-- The answers to the requests about a slot. -/
def answersOn (slot : Nat) (rs : List Request) (answers : List Answer) : List Answer :=
  ((rs.zip answers).filter (·.1.slot? = some slot)).map Prod.snd

/-- The answers about a slot are those that there are without the requests about other slots. -/
theorem answersOn_run {v w : Vault} {slot : Nat} (hview : v.view slot = w.view slot)
    (hslot : slot < v.states.length) (rs : List Request) :
    answersOn slot rs (v.run rs).1 = (w.run (rs.filter (·.slot? = some slot))).1 := by
  induction rs generalizing v w with
  | nil => rfl
  | cons r rs ih =>
    have heffect := v.effect_step r
    have hlength := Nat.lt_of_lt_of_le hslot (length_states_of_effect heffect)
    -- A request about the slot is made in both runs, and one about another slot only in the first.
    by_cases hr : r.slot? = some slot
    · obtain ⟨hanswer, hafter⟩ := step_congr hview hr
      have hrest := ih hafter hlength
      simp only [answersOn] at hrest
      simp [answersOn, run, hr, hanswer, hrest]
    · have hafter := (view_of_effect heffect hr hslot).trans hview
      have hrest := ih hafter hlength
      simp only [answersOn] at hrest
      simp [answersOn, run, hr, hrest]

/-! ## The public half -/

/-- The public half of the keypair in a slot. -/
def publicKeyAt (v : Vault) (slot : Nat) : Option PublicKey :=
  v.states[slot]?.map KeyState.publicKey

/-- No request changes a public half. -/
theorem publicKeyAt_of_effect {v w : Vault} {r : Request} {a : Answer} {slot : Nat}
    (h : Effect v r a w) (hslot : slot < v.states.length) :
    w.publicKeyAt slot = v.publicKeyAt slot := by
  -- Erasing takes only the secret half away, so it changes no public half in any slot.
  have herased (i : Nat) : (v.erase i).publicKeyAt slot = v.publicKeyAt slot := by
    rw [publicKeyAt, getElem?_states_erase, publicKeyAt]
    split <;> simp [Function.comp_def]
  cases h with
  | unchanged => rfl
  | added k => exact congrArg (·.map KeyState.publicKey) (List.getElem?_append_left hslot)
  | shared => rw [publicKeyAt, states_share, publicKeyAt]
  | erased => exact herased _
  | dropped =>
    rw [publicKeyAt, states_drop]
    split
    next => rfl
    next => exact herased _

/-- No run changes a public half. -/
theorem publicKeyAt_run (v : Vault) (rs : List Request) {slot : Nat}
    (hslot : slot < v.states.length) :
    (v.run rs).2.publicKeyAt slot = v.publicKeyAt slot := by
  induction rs generalizing v with
  | nil => rfl
  | cons r rs ih =>
    have heffect := v.effect_step r
    have hlength := Nat.lt_of_lt_of_le hslot (length_states_of_effect heffect)
    exact (ih _ hlength).trans (publicKeyAt_of_effect heffect hslot)

/-- The public half alone answers the requests for what is public. -/
theorem step_of_isPublic {v w : Vault} {h : Handle} (hv : h ∈ v.handles) (hw : h ∈ w.handles)
    (hpublic : v.publicKeyAt h.slot = w.publicKeyAt h.slot) {r : Request} (hr : r.IsPublic h) :
    (v.step r).1 = (w.step r).1 := by
  obtain ⟨s, hs, hstate⟩ := exists_get?_of_mem hv
  obtain ⟨s', hs', hstate'⟩ := exists_get?_of_mem hw
  have hkey : s.publicKey = s'.publicKey := by
    simpa [publicKeyAt, hstate, hstate'] using hpublic
  cases hr <;>
    simp [step, observe, onKeypair, hs, hs', KeyState.keyType, describeState, hkey]

/-! ## Refusals -/

/-- A handle is refused what takes the secret exactly when the secret was erased. -/
theorem step_eq_erased_iff {v : Vault} {h : Handle} {s : KeyState} (hs : v.get? h = some s)
    {r : Request} (hr : r.NeedsSecret h) :
    (v.step r).1 = .failed (.identity (.erased s.keyType)) ↔ s.IsErased := by
  -- The error is wrapped twice on its way to the answer, and nothing else is wrapped to the same.
  have hofBytes (x : Except Failure Bytes) :
      Answer.ofBytes x = .failed (.identity (.erased s.keyType)) ↔
        x = .error (.identity (.erased s.keyType)) := by
    cases x <;> simp [Answer.ofBytes]
  have hmap (x : Except IdentityError Bytes) :
      x.mapError Failure.identity = .error (.identity (.erased s.keyType)) ↔
        x = .error (.erased s.keyType) := by
    cases x <;> simp
  cases hr with
  | sign randomness message =>
    simpa [step, observe, onKeypair, hs, hofBytes] using s.sign_eq_erased_iff randomness message
  | encode =>
    simpa [step, observe, onKeypair, hs, hofBytes, hmap, KeyState.encode] using
      s.map_keypair_eq_erased_iff Keypair.encode
  | rawBytes =>
    simpa [step, observe, onKeypair, hs, hofBytes, hmap, KeyState.rawBytes] using
      s.map_keypair_eq_erased_iff Keypair.rawBytes

/-- Erasing an erased secret once more leaves the vault as it is. -/
theorem erase_of_isErased {v : Vault} {slot : Nat} (h : v.IsErased slot) : v.erase slot = v := by
  obtain ⟨s, hs, herased⟩ := h
  have hstates : (v.erase slot).states = v.states := by
    refine List.ext_getElem? fun i => ?_
    rw [getElem?_states_erase]
    split
    next hi =>
      subst hi
      rw [hs, Option.map_some, KeyState.erase_of_isErased herased]
    next => rfl
  obtain ⟨states, handles, _⟩ := v
  simpa [erase] using hstates

/-- Giving up a handle to a slot leaves the keypair in it as it is for the handles that stay. -/
theorem get?_drop {v : Vault} {g h : Handle} (hmem : h ∈ (v.drop g).handles) :
    (v.drop g).get? h = v.get? h := by
  have hview := mem_handles_iff_view.mp hmem
  rw [view_drop] at hview
  have hnil : ¬ (g.slot = h.slot ∧ (v.view h.slot).2.erase g = []) := fun hnil =>
    List.ne_nil_of_mem hview hnil.2
  rw [get?_eq_view, get?_eq_view, view_drop, if_neg hnil, if_pos hview,
    if_pos (List.mem_of_mem_erase hview)]

/-- The answer to a request through a handle is decided by what the handle refers to. -/
theorem step_of_get? {v w : Vault} {h : Handle} (hget : v.get? h = w.get? h) {r : Request}
    (hr : r.handle? = some h) : (v.step r).1 = (w.step r).1 := by
  cases r with
  | decode | decodeRaw | generate | generateRsa => simp [Request.handle?] at hr
  | into h t =>
    obtain rfl := Option.some.inj hr
    cases hs : w.get? h with
    | none => simp [step, onKeypair, hget, hs]
    | some s =>
      simp only [step, onKeypair, hget, hs, Option.elim, into]
      split <;> rfl
  | sign h | encode h | rawBytes h | keyType h | publicKey h | peerId h | describe h
  | erase h | leave h | drop h =>
    obtain rfl := Option.some.inj hr
    cases hs : w.get? h <;> simp [step, observe, onKeypair, hget, hs]

/-- What a run of any length from the vault without keypairs says of a handle in use. The handle
is refused what takes the secret exactly when a request of the run erased the secret, whichever
handle it was made through. Whatever requests follow, the refusal stays and the public half answers
the same. Erasing once more changes nothing, and neither does giving up any handle beside it. The
answers about its keypair are those that there are without the requests about other keypairs. -/
theorem erasure_permanent_and_isolated (rs : List Request) (h : Handle)
    (hmem : h ∈ (empty.run rs).2.handles) :
    let answers := (empty.run rs).1
    let v := (empty.run rs).2
    ∃ t, (v.step (.keyType h)).1 = .keyType t ∧
      (∀ r : Request, r.NeedsSecret h →
        ((v.step r).1 = .failed (.identity (.erased t)) ↔ Erases h.slot rs answers)) ∧
      (∀ rs' : List Request, h ∈ (v.run rs').2.handles →
        (Erases h.slot rs answers → ∀ r : Request, r.NeedsSecret h →
          ((v.run rs').2.step r).1 = .failed (.identity (.erased t))) ∧
        ∀ r : Request, r.IsPublic h → ((v.run rs').2.step r).1 = (v.step r).1) ∧
      (Erases h.slot rs answers → ∀ g ∈ v.handles, g.slot = h.slot →
        v.step (.erase g) = (.done, v) ∧ v.step (.leave g) = (.done, v)) ∧
      (∀ g : Handle, h ∈ (v.step (.drop g)).2.handles → ∀ r : Request, r.handle? = some h →
        ((v.step (.drop g)).2.step r).1 = (v.step r).1) ∧
      ∀ rs' : List Request, answersOn h.slot rs' (v.run rs').1 =
        (v.run (rs'.filter (·.slot? = some h.slot))).1 := by
  intro answers v
  obtain ⟨s, hs, hstate⟩ := exists_get?_of_mem hmem
  have hslot : h.slot < v.states.length := v.slot_lt h hmem
  -- The state of the keypair tells whether the run erased it.
  have herased : s.IsErased ↔ Erases h.slot rs answers := by
    have hrun := isErased_run_iff empty rs h.slot (.inl ⟨h, hmem, rfl⟩)
    have hempty : ¬ empty.IsErased h.slot := fun ⟨_, hs, _⟩ => nomatch hs
    rwa [isErased_iff_of_state hstate, or_iff_right hempty] at hrun
  refine ⟨s.keyType, ?_, fun r hr => ?_, fun rs' hmem' => ⟨fun herases r hr => ?_, fun r hr => ?_⟩,
    fun herases g hg hgh => ?_, fun g hmem' r hr => ?_, fun rs' => ?_⟩
  · simp [step, observe, onKeypair, v, hs]
  · exact (step_eq_erased_iff hs hr).trans herased
  · obtain ⟨s', hs', hstate'⟩ := exists_get?_of_mem hmem'
    have hpublic := publicKeyAt_run v rs' hslot
    have hkey : s'.publicKey = s.publicKey := by
      simpa [publicKeyAt, hstate, hstate', v] using hpublic
    -- What the run before erased stays erased in the run after it.
    have hrun := isErased_run_iff v rs' h.slot (.inl ⟨h, hmem', rfl⟩)
    have hafter := hrun.mpr (.inl ((isErased_iff_of_state hstate).mpr (herased.mpr herases)))
    have hrefused := (step_eq_erased_iff hs' hr).mpr ((isErased_iff_of_state hstate').mp hafter)
    rwa [KeyState.keyType, hkey] at hrefused
  · exact step_of_isPublic hmem' hmem (publicKeyAt_run v rs' hslot) hr
  · have hsame : v.erase g.slot = v := by
      rw [hgh]
      exact erase_of_isErased ((isErased_iff_of_state hstate).mpr (herased.mpr herases))
    obtain ⟨s', hs', -⟩ := exists_get?_of_mem hg
    simp [step, onKeypair, hs', hsame]
  · by_cases hg : g ∈ v.handles
    · obtain ⟨s', hs', -⟩ := exists_get?_of_mem hg
      have hdrop : (v.step (.drop g)).2 = v.drop g := by simp [step, onKeypair, hs']
      rw [hdrop] at hmem' ⊢
      exact step_of_get? (get?_drop hmem') hr
    · simp [step, onKeypair, get?_of_not_mem hg]
  · exact answersOn_run rfl hslot rs'

/-- A secp256k1 keypair with the scalar 1 is taken out and stays in use when the handle that it was
taken out of is given up, until the block that it was opened for is left. -/
def takenOutAndErased : List Request :=
  [.decode (0x08 :: 0x02 :: 0x12 :: 0x20 :: List.replicate 31 0 ++ [1]),
    .into ⟨0, false⟩ .secp256k1, .drop ⟨0, false⟩, .leave ⟨0, true⟩]

/-- The keypair that was taken out is refused its encoding, and tells that it is erased. -/
theorem encode_after_takenOutAndErased :
    ∃ t, ((empty.run takenOutAndErased).2.step (.keyType ⟨0, true⟩)).1 = .keyType t ∧
      ((empty.run takenOutAndErased).2.step (.encode ⟨0, true⟩)).1 =
        .failed (.identity (.erased t)) := by
  obtain ⟨t, ht, hrefused, -⟩ :=
    erasure_permanent_and_isolated takenOutAndErased ⟨0, true⟩ (by decide +kernel)
  exact ⟨t, ht, (hrefused _ .encode).mpr (by decide +kernel)⟩

end Vault

end PeerIdentity
