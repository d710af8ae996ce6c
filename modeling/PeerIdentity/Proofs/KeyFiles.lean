import PeerIdentity.Proofs.Replacement

/-!
# Key files over many runs

The commands that show a key read a file and change nothing. They end well exactly if the file can
be read and its contents decode, and what they show depends on the decoded key only, so they agree
with each other. The command that generates a keypair changes one file. The keypair is read back
from it by all later runs, until another keypair is generated in its place.

The record of a public key in a file of its own is that of the keypair it belongs to, if the public
key is read at all. That of an RSA keypair whose public exponent is as large as the modulus is not.

* `Run.ShowsFile`: a run shows what a file holds;
* `Run.on_cases`: what one run does to the files;
* `Spared`, `Spared.keeps`: runs that generate no keypair in a place, and the file there;
* `key_files_consistent`: the commands agree about every key file;
* `inspect_public_fails`: a public key that is not read.
-/

namespace PeerIdentity

open FileTree

/-- A run of the program. -/
structure Run where
  config : Config
  randomness : Randomness
  args : List String

namespace Run

variable {r : Run} {t u : FileTree} {path output : Path} {place : List String} {command : Command}
  {keyType : KeyType}

/-- What a run shows, and the files after it. -/
def on (r : Run) (t : FileTree) : Outcome × FileTree :=
  CommandLine.runOn t r.config r.randomness r.args

/-! ## Showing a file -/

/-- A run shows what a file holds, or fails if the file holds nothing that decodes. -/
structure ShowsFile {α : Type} (r : Run) (t : FileTree) (path : Path)
    (decode : Bytes → Except IdentityError α) (text : α → String) : Prop where
  unchanged : (r.on t).2 = t
  exit_eq_zero_iff :
    (r.on t).1.exit = 0 ↔ ∃ contents a, t.read path = .ok contents ∧ decode contents = .ok a
  stdout {contents : Bytes} {a : α} : t.read path = .ok contents → decode contents = .ok a →
    (r.on t).1.stdout = text a ++ "\n"
  failed : (r.on t).1.exit ≠ 0 → (r.on t).1.exit = 1 ∧ (r.on t).1.stdout = ""

/-- On a tree, a file loads exactly if the tree has it and its contents decode. -/
theorem loads_system_iff {α : Type} {decode : Bytes → Except IdentityError α} {a : α} :
    Command.Loads ((system.read path).run t).1 decode a ↔
      ∃ contents, t.read path = .ok contents ∧ decode contents = .ok a := by
  have hread : ∀ contents, ((system.read path).run t).1 = .ok contents ↔
      t.read path = .ok contents := fun _ => mapError_eq_ok_iff
  simp only [Command.Loads, hread]

/-- A run shows what a file holds if its command ends with what the file decodes to. -/
theorem showsFile_of_ensures {α : Type} {decode : Bytes → Except IdentityError α}
    {text : α → String} (hargs : Executes r.args command)
    (hcommand : Command.Ensures (command.run system r.config r.randomness) t fun result u =>
      u = ((system.read path).run t).2 ∧ ∀ output, result = .ok output ↔
        ∃ a, Command.Loads ((system.read path).run t).1 decode a ∧ text a = output) :
    r.ShowsFile t path decode text := by
  obtain ⟨result, hshows, hunchanged, hresult⟩ := CommandLine.exists_of_ensures hargs hcommand
  simp only [loads_system_iff] at hresult
  -- A file that decodes determines the result, also where the command has failed.
  have hloads : ∀ contents a, t.read path = .ok contents → decode contents = .ok a →
      result = .ok (text a) :=
    fun contents a hread ha => (hresult (text a)).mpr ⟨a, ⟨contents, hread, ha⟩, rfl⟩
  cases result with
  | ok output =>
    obtain ⟨hexit, hstdout⟩ := hshows
    obtain ⟨a, ⟨contents, hread, ha⟩, -⟩ := (hresult output).mp rfl
    refine ⟨hunchanged, ⟨fun _ => ⟨contents, a, hread, ha⟩, fun _ => hexit⟩, ?_, ?_⟩
    · intro contents a hread ha
      cases hloads contents a hread ha
      exact hstdout
    · exact fun hfailed => absurd hexit hfailed
  | error e =>
    obtain ⟨hexit, hstdout⟩ := hshows
    refine ⟨hunchanged, ⟨fun h => ?_, ?_⟩, ?_, fun _ => ⟨hexit, hstdout⟩⟩
    · exact absurd (hexit.symm.trans h) (by decide)
    · rintro ⟨contents, a, hread, ha⟩
      cases hloads contents a hread ha
    · intro contents a hread ha
      cases hloads contents a hread ha

/-- The record of the public half of a keypair is shown. -/
theorem inspect_showsFile (hargs : Executes r.args (.inspect path false)) (t : FileTree) :
    r.ShowsFile t path Keypair.decode fun k => Command.showRecord k.publicKey :=
  showsFile_of_ensures hargs (Command.ensures_show Command.ensures_load)

/-- The record of a public key is shown. -/
theorem inspectPublic_showsFile (hargs : Executes r.args (.inspect path true)) (t : FileTree) :
    r.ShowsFile t path PublicKey.decode Command.showRecord :=
  showsFile_of_ensures hargs (Command.ensures_show Command.ensures_load)

/-- The peer identifier of a keypair is shown, as one of its two texts. -/
theorem peerId_showsFile {asCid : Bool} (hargs : Executes r.args (.peerId path asCid))
    (t : FileTree) :
    r.ShowsFile t path Keypair.decode fun k =>
      if asCid then k.peerId.toCid else k.peerId.toBase58 :=
  showsFile_of_ensures hargs (Command.ensures_show Command.ensures_load)

/-- The encoding of a keypair without its envelope is shown. -/
theorem toHex_showsFile (hargs : Executes r.args (.toHex path)) (t : FileTree) :
    r.ShowsFile t path Keypair.decode fun k => Bytes.hex k.rawBytes :=
  showsFile_of_ensures hargs (Command.ensures_show Command.ensures_load)

/-! ## Generating a keypair -/

/-- A run that generates a keypair shows its identifier and leaves its encoding in the file. -/
theorem generate_replaces (hargs : Executes r.args (.generate keyType output))
    (hexit : (r.on t).1.exit = 0) :
    ∃ k : Keypair, k.keyType = keyType ∧ (r.on t).1.stdout = k.peerId.toBase58 ++ "\n" ∧
      Replaces output k.encode t (r.on t).2 := by
  rcases CommandLine.generate_cases worksOn_system writesUnless_system hargs t with
    ⟨-, k, hk, hstdout, hreplaces⟩ | ⟨hfailed, -⟩
  · exact ⟨k, Keypair.keyType_of_generate hk, hstdout, hreplaces⟩
  · exact absurd (hfailed.symm.trans hexit) (by decide)

/-- A run leaves the files as they are, or it ends well with a fresh keypair in one of them. -/
theorem on_cases (r : Run) (t : FileTree) :
    Extends t (r.on t).2 ∨ ∃ keyType output k, Executes r.args (.generate keyType output) ∧
      (r.on t).1.exit = 0 ∧ Replaces output (Keypair.encode k) t (r.on t).2 := by
  rcases CommandLine.run_cases worksOn_system writesUnless_system r.config r.randomness r.args t
    with hsame | ⟨keyType, output, k, hargs, -, ⟨hexit, hreplaces⟩ | hspoils⟩
  · exact .inl hsame
  · exact .inr ⟨keyType, output, k, hargs, hexit, hreplaces⟩
  · exact (hspoils.leads.elim And.left And.left).elim

/-- A run generates a keypair in a file at a place. -/
def Overwrites (r : Run) (t : FileTree) (place : List String) : Prop :=
  ∃ keyType output, Executes r.args (.generate keyType output) ∧ (r.on t).1.exit = 0 ∧
    (r.on t).2.resolve output = .ok place

/-- A run that generates no keypair in a place keeps the file there. -/
theorem keeps_of_not_overwrites (h : ¬ r.Overwrites t place) :
    Keeps t (r.on t).2 ∧ (r.on t).2.file? place = t.file? place := by
  rcases r.on_cases t with hsame | ⟨keyType, output, k, hargs, hexit, hreplaces⟩
  · exact ⟨hsame.keeps, hsame.file? place⟩
  -- A keypair was generated, but not at this place.
  · refine ⟨hreplaces.keepsBut.keeps, hreplaces.keepsBut.file? place fun hresolve => ?_⟩
    exact h ⟨keyType, output, hargs, hexit, hresolve⟩

end Run

/-! ## Many runs -/

/-- Files are followed by other files after runs that generate no keypair at a place. -/
inductive Spared (place : List String) : FileTree → FileTree → Prop
  | refl (t : FileTree) : Spared place t t
  | step {t u : FileTree} (r : Run) :
    ¬ r.Overwrites t place → Spared place (r.on t).2 u → Spared place t u

/-- Runs that generate no keypair in a place keep the file there. -/
theorem Spared.keeps {place : List String} {t u : FileTree} (h : Spared place t u) :
    Keeps t u ∧ u.file? place = t.file? place := by
  induction h with
  | refl t => exact ⟨.refl t, rfl⟩
  | step r hspares _ ih =>
    obtain ⟨hkeeps, hfile⟩ := Run.keeps_of_not_overwrites hspares
    exact ⟨hkeeps.trans ih.1, ih.2.trans hfile⟩

/-! ## Agreement -/

section Agreement

variable {r s : Run} {t u : FileTree} {path path' output : Path} {place : List String}

/-- The record of a public key in a file of its own is that of the keypair, if the key is read. -/
theorem inspectPublic_agrees_iff {contents : Bytes} {k : Keypair}
    (hr : Executes r.args (.inspect path false)) (hs : Executes s.args (.inspect path' true))
    (hread : t.read path = .ok contents) (hk : Keypair.decode contents = .ok k)
    (hread' : t.read path' = .ok k.publicKey.encode) :
    (s.on t).1.exit = 0 ∧ (s.on t).1.stdout = (r.on t).1.stdout ↔
      ∀ rsa, k = .rsa rsa → rsa.numbers.e < rsa.numbers.n := by
  have hkeypair := Run.inspect_showsFile hr t
  have hpublic := Run.inspectPublic_showsFile hs t
  rw [← Keypair.isReadable_publicKey_iff]
  constructor
  · rintro ⟨hexit, -⟩
    obtain ⟨contents', l, hcontents', hl⟩ := hpublic.exit_eq_zero_iff.mp hexit
    cases hread'.symm.trans hcontents'
    exact (PublicKey.decode_encode_eq_ok_iff.mp hl).1
  · intro hreadable
    have hdecode := PublicKey.decode_encode_eq_ok_iff.mpr ⟨hreadable, rfl⟩
    refine ⟨hpublic.exit_eq_zero_iff.mpr ⟨_, _, hread', hdecode⟩, ?_⟩
    rw [hpublic.stdout hread' hdecode, hkeypair.stdout hread hk]

/-- A keypair that a run has left in a file is shown by later runs, until another one takes its
place. -/
theorem peerId_of_spared {k : Keypair} (hleads : t.Leads output (some (.file k.encode privateMode)))
    (hplace : t.resolve output = .ok place) (hspared : Spared place t u)
    (hs : Executes s.args (.peerId path false)) (hpath : u.resolve path = .ok place) :
    (s.on u).1.exit = 0 ∧ (s.on u).1.stdout = k.peerId.toBase58 ++ "\n" := by
  have hfile : u.get? place = some (.file k.encode privateMode) := by
    rw [← file?_eq_some_iff, hspared.keeps.2, file?_eq_some_iff]
    exact hleads.get? hplace
  have hread : u.read path = .ok k.encode :=
    read_eq_ok_iff.mpr ⟨place, privateMode, hpath, hfile⟩
  have hshows := Run.peerId_showsFile hs u
  exact ⟨hshows.exit_eq_zero_iff.mpr ⟨k.encode, k, hread, k.decode_encode⟩,
    hshows.stdout hread k.decode_encode⟩

/-- The commands tell one story about each key file, on all files and after any runs. A run that
shows a key changes no file, and it ends well exactly if the file is read and holds a key. What it
shows are the fields of one record, or the encoding of the keypair. The public key in a file of its
own gives the same record as the keypair, unless the keypair is one of RSA with a public exponent as
large as the modulus. A run that generates a keypair leaves it in a private file, changes no other
one, and shows the peer identifier that later runs show until the file is overwritten. -/
theorem key_files_consistent (t : FileTree) (r : Run) :
    (∀ path, Executes r.args (.inspect path false) →
      r.ShowsFile t path Keypair.decode fun k => Command.showRecord k.publicKey) ∧
    (∀ path, Executes r.args (.inspect path true) →
      r.ShowsFile t path PublicKey.decode Command.showRecord) ∧
    (∀ path asCid, Executes r.args (.peerId path asCid) →
      r.ShowsFile t path Keypair.decode fun k =>
        let record := IdentityRecord.ofPublicKey k.publicKey
        if asCid then record.peerIdCid else record.peerId) ∧
    (∀ path, Executes r.args (.toHex path) →
      r.ShowsFile t path Keypair.decode fun k => Bytes.hex k.rawBytes) ∧
    (∀ (s : Run) path path' contents k, Executes r.args (.inspect path false) →
      Executes s.args (.inspect path' true) → t.read path = .ok contents →
      Keypair.decode contents = .ok k → t.read path' = .ok k.publicKey.encode →
      ((s.on t).1.exit = 0 ∧ (s.on t).1.stdout = (r.on t).1.stdout ↔
        ∀ rsa, k = .rsa rsa → rsa.numbers.e < rsa.numbers.n)) ∧
    (∀ keyType output, Executes r.args (.generate keyType output) → (r.on t).1.exit = 0 →
      ∃ k place, k.keyType = keyType ∧ Keypair.decode k.encode = .ok k ∧
        (r.on t).1.stdout = (IdentityRecord.ofPublicKey k.publicKey).peerId ++ "\n" ∧
        (r.on t).2.resolve output = .ok place ∧
        (r.on t).2.file? place = some (k.encode, privateMode) ∧
        (∀ q, q ≠ place → (r.on t).2.file? q = t.file? q) ∧
        ∀ u, Spared place (r.on t).2 u → u.resolve output = .ok place ∧
          ∀ (s : Run) path, u.resolve path = .ok place → Executes s.args (.peerId path false) →
            (s.on u).1.exit = 0 ∧ (s.on u).1.stdout = (r.on t).1.stdout) := by
  refine ⟨fun _ hr => Run.inspect_showsFile hr t, fun _ hr => Run.inspectPublic_showsFile hr t,
    fun _ _ hr => Run.peerId_showsFile hr t, fun _ hr => Run.toHex_showsFile hr t,
    fun s path path' contents k hr hs hread hk hread' =>
      inspectPublic_agrees_iff hr hs hread hk hread', fun keyType output hr hexit => ?_⟩
  obtain ⟨k, hkeyType, hstdout, hkeeps, hleads⟩ := Run.generate_replaces hr hexit
  obtain ⟨place, hplace, hfile⟩ := id hleads
  refine ⟨k, place, hkeyType, k.decode_encode, hstdout, hplace, file?_eq_some_iff.mpr hfile,
    fun q hq => ?_, fun u hspared => ⟨hspared.keeps.1.resolve hplace, fun s path hpath hs => ?_⟩⟩
  · refine hkeeps.file? q fun hresolve => hq ?_
    exact Except.ok.inj (hresolve.symm.trans hplace)
  · rw [hstdout]
    exact peerId_of_spared hleads hplace hspared hs hpath

end Agreement

theorem parse_peerId : Command.parse ["peer-id", "node.key"] =
    .ok ({}, .peerId ⟨"", ["node.key"]⟩ false) := by
  decide

/-- A keypair is generated and shown again. -/
theorem key_files_consistent_of_generate :
    let r : Run := ⟨.standard, .ok [], ["generate", "--output", "node.key"]⟩
    let s : Run := ⟨.standard, .ok [], ["peer-id", "node.key"]⟩
    (r.on .empty).1.exit = 0 ∧ (s.on (r.on .empty).2).1.exit = 0 ∧
      (s.on (r.on .empty).2).1.stdout = (r.on .empty).1.stdout := by
  intro r s
  have hexit : (r.on .empty).1.exit = 0 := by
    obtain ⟨k, hk⟩ := Keypair.exists_generate_ed25519 .standard []
    simp only [r, Run.on, CommandLine.runOn, CommandLine.run, CommandLine.parse_generate,
      Command.run, Command.runGenerate, hk]
    rfl
  obtain ⟨-, -, -, -, -, hgenerate⟩ := key_files_consistent .empty r
  obtain ⟨k, place, -, -, -, -, -, -, hlater⟩ :=
    hgenerate _ _ ⟨_, CommandLine.parse_generate⟩ hexit
  obtain ⟨hplace, hshown⟩ := hlater _ (.refl _)
  exact ⟨hexit, hshown s _ hplace ⟨_, parse_peerId⟩⟩

/-- The record of an RSA keypair with a large exponent is shown, but not that of its public key. -/
theorem inspect_public_fails :
    let k := Keypair.rsa Rsa.largeExponent
    let t : FileTree := {
      nodes := [(["rsa.key"], .file k.encode 0o644),
        (["rsa.pub"], .file k.publicKey.encode 0o644)] }
    let r : Run := ⟨.standard, .ok [], ["--no-color", "inspect", "rsa.key"]⟩
    let s : Run := ⟨.standard, .ok [], ["--no-color", "inspect", "rsa.pub", "--public"]⟩
    (r.on t).1.exit = 0 ∧ (s.on t).1.exit = 1 ∧ (s.on t).1.stdout = "" := by
  intro k t r s
  have hr : Executes r.args (.inspect ⟨"", ["rsa.key"]⟩ false) := ⟨{ colored := false }, by decide⟩
  have hs : Executes s.args (.inspect ⟨"", ["rsa.pub"]⟩ true) := ⟨{ colored := false }, by decide⟩
  have hlarge : Rsa.largeExponentNumbers.n ≤ Rsa.largeExponentNumbers.e := by decide +kernel
  have hkeypair := Run.inspect_showsFile hr t
  have hpublic := Run.inspectPublic_showsFile hs t
  refine ⟨hkeypair.exit_eq_zero_iff.mpr ⟨k.encode, k, rfl, k.decode_encode⟩,
    hpublic.failed fun hexit => ?_⟩
  obtain ⟨contents, l, hread, hl⟩ := hpublic.exit_eq_zero_iff.mp hexit
  cases hread
  have hreadable := (PublicKey.decode_encode_eq_ok_iff.mp hl).1
  exact absurd ((Keypair.isReadable_publicKey_iff k).mp hreadable _ rfl) (Nat.not_lt.mpr hlarge)

end PeerIdentity
