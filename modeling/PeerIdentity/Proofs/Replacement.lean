import PeerIdentity.Proofs.Commands
import PeerIdentity.Proofs.Files.System
import PeerIdentity.Proofs.Keypair
import PeerIdentity.Proofs.Shake

/-!
# Replacing a key file

A keypair is written to a file in three steps: a file that is there is removed, an empty file is
created, and the encoding is written. Until the first step has succeeded nothing is lost. After it
the old file is gone, and an interruption of a later step leaves nothing or a beginning of the new
encoding in its place. On a tree without interruptions the later steps succeed, so there a file is
replaced or stays as it is.

* `FileTree.Replaces`, `FileTree.Spoils`: a tree after all steps, and after some of them;
* `Command.ensures_writeSecret`, `Command.ensures_runGenerate`: how these steps end;
* `CommandLine.run_cases`: what any run does to the files;
* `CommandLine.failed_run_keeps_files`: what a failed run does to them;
* `CommandLine.failed_run_loses_file`: a failed run that costs a file.
-/

namespace PeerIdentity

open FileTree

namespace FileTree

variable {t u v : FileTree} {p : Path} {contents : Bytes}

/-- A path leads to a private file with given contents, and nothing else has changed. -/
structure Replaces (p : Path) (contents : Bytes) (t u : FileTree) : Prop where
  keepsBut : KeepsBut p t u
  leads : u.Leads p (some (.file contents privateMode))

/-- A path leads to nothing, after an interrupted creation, or to a private file with a beginning of
given contents, after an interrupted write. Nothing else has changed. -/
structure Spoils (interrupted : Operation → Prop) (p : Path) (contents : Bytes) (t u : FileTree) :
    Prop where
  keepsBut : KeepsBut p t u
  leads : interrupted .createPrivate ∧ u.Leads p none ∨ interrupted .write ∧
    ∃ beginning, beginning <+: contents ∧ u.Leads p (some (.file beginning privateMode))

/-- Directories that were added before play no part in a replacement. -/
theorem Replaces.of_extends (htu : Extends t u) (huv : Replaces p contents u v) :
    Replaces p contents t v :=
  ⟨htu.keepsBut.trans huv.keepsBut, huv.leads⟩

/-- Directories that were added before play no part in an interrupted replacement. -/
theorem Spoils.of_extends {interrupted : Operation → Prop} (htu : Extends t u)
    (huv : Spoils interrupted p contents u v) : Spoils interrupted p contents t v :=
  ⟨htu.keepsBut.trans huv.keepsBut, huv.leads⟩

end FileTree

namespace Command

variable {σ : Type} {fs : FileSystem (StateM σ)} {tree : σ → FileTree}
  {interrupted : Operation → σ → Prop} {s : σ}

/-! ## Steps -/

/-- An operation on files changes the tree or stops the command. -/
theorem ensures_performs {x : StateM σ (Except FileError Unit)}
    {operation : FileTree → Except FileFault FileTree} {leaves : FileTree → FileTree → Prop}
    (hx : Performs tree x operation leaves) :
    Ensures (onFiles x) s fun r s' =>
      match r with
      | .ok () => operation (tree s) = .ok (tree s')
      | .error _ => leaves (tree s) (tree s') ∧ ∃ e, x.run s = (.error e, s') := by
  refine (ensures_onFiles x).mono ?_
  rintro r s' ⟨rfl, rfl⟩
  rcases hrun : x.run s with ⟨_ | _, s'⟩
  case error e => exact ⟨hx.error hrun, e, rfl⟩
  case ok => exact hx.ok hrun

/-- A tree after a file has been removed if it was there. -/
def AfterRemoval (p : Path) (t u : FileTree) : Prop :=
  u = t ∨ t.remove p = .ok u

/-- Removing a file if it is there changes no other file. -/
theorem AfterRemoval.keepsBut {p : Path} {t u : FileTree} (h : AfterRemoval p t u) :
    KeepsBut p t u := by
  rcases h with rfl | hremove
  · exact (Extends.refl u).keepsBut
  · exact keepsBut_of_remove hremove

variable (h : fs.WorksOn tree)

include h

/-- A file is removed if it is there, and a refusal leaves it. -/
theorem ensures_removeIfThere (p : Path) :
    Ensures (onFiles (fs.removeIfThere p)) s fun r s' =>
      match r with
      | .ok () => AfterRemoval p (tree s) (tree s')
      | .error _ => tree s' = tree s := by
  refine (ensures_onFiles (fs.removeIfThere p)).mono ?_
  rintro r s' ⟨rfl, rfl⟩
  rcases hrun : (fs.removeIfThere p).run s with ⟨_ | _, s'⟩
  case error e => exact (h.removeIfThere_cases hrun).resolve_right nofun
  case ok => exact (h.removeIfThere_cases hrun).imp_right And.right

/-! ## Writing a secret -/

/-- A secret takes the place of a file. When that fails the files are as before, unless a creation
or a write has been interrupted. Then the old file is gone. -/
theorem ensures_writeSecret (hwrites : fs.WritesUnless tree interrupted) (p : Path)
    (contents : Bytes) :
    Ensures (writeSecret fs p contents) s fun r s' =>
      match r with
      | .ok () => Replaces p contents (tree s) (tree s')
      | .error _ => Extends (tree s) (tree s') ∨
        Spoils (interrupted · s') p contents (tree s) (tree s') := by
  -- Until the removal has succeeded, a failure costs nothing.
  refine (ensures_removeIfThere h p).bind (fun _ s₁ hremoved => ?_) fun _ s₁ hsame => ?_
  case refine_2 => exact .inl (.of_eq hsame)
  refine (ensures_performs (h.createPrivate p)).bind (fun _ s₂ hcreated => ?_)
    fun _ s₂ hrefused => ?_
  case refine_2 =>
    obtain ⟨hsame, e, hrun⟩ := hrefused
    rcases hremoved with hunchanged | hremove
    · exact .inl (.of_eq (hsame.trans hunchanged))
    · -- There is room for a new file where the old one was, so only an interruption is left as the
      -- reason for the refusal.
      have hleads := leads_of_remove hremove
      obtain ⟨t, hroom⟩ := insertNew_of_leads hleads
      rw [hsame]
      exact .inr ⟨keepsBut_of_remove hremove, .inl ⟨hwrites.createPrivate hroom hrun, hleads⟩⟩
  -- From here on the path leads to a new and empty file, whatever stood there before.
  have hempty := leads_of_insertNew hcreated
  have hkeeps : KeepsBut p (tree s) (tree s₂) :=
    hremoved.keepsBut.trans (keepsBut_of_insertNew hcreated)
  refine (ensures_performs (h.write p contents)).mono fun r s₃ hwritten => ?_
  cases r with
  | ok => exact ⟨hkeeps.trans (keepsBut_of_write hwritten), leads_of_write hwritten hempty⟩
  | error e =>
    obtain ⟨hleft, e, hrun⟩ := hwritten
    obtain ⟨t, hroom⟩ := write_of_leads hempty contents
    have hinterrupted := hwrites.write hroom hrun
    rcases hleft with hsame | ⟨beginning, hbegins, hwrite⟩
    -- A write that has not begun leaves the empty beginning.
    · rw [hsame]
      exact .inr ⟨hkeeps, .inr ⟨hinterrupted, [], List.nil_prefix, hempty⟩⟩
    · exact .inr ⟨hkeeps.trans (keepsBut_of_write hwrite),
        .inr ⟨hinterrupted, beginning, hbegins, leads_of_write hwrite hempty⟩⟩

/-! ## Generating a keypair -/

/-- Making directories only adds directories, also when it fails on the way. -/
theorem ensures_makeDirectories (p : Path) :
    Ensures (onFiles (fs.makeDirectories p)) s fun _ s' => Extends (tree s) (tree s') := by
  refine (ensures_onFiles (fs.makeDirectories p)).mono ?_
  rintro r s' ⟨-, rfl⟩
  exact h.onlyExtends_makeDirectories p s

/-- A fresh keypair takes the place of a file, and its peer identifier is the output. When that
fails the files are as before, unless a creation or a write has been interrupted. -/
theorem ensures_runGenerate (hwrites : fs.WritesUnless tree interrupted) (config : Config)
    (randomness : Randomness) (t : KeyType) (output : Path) :
    Ensures (runGenerate fs config randomness t output) s fun r s' =>
      match r with
      | .ok text => ∃ k, Keypair.generate config t randomness = .ok k ∧
        text = k.peerId.toBase58 ∧ Replaces output k.encode (tree s) (tree s')
      | .error _ => Extends (tree s) (tree s') ∨
        ∃ k, Keypair.generate config t randomness = .ok k ∧
          Spoils (interrupted · s') output k.encode (tree s) (tree s') := by
  refine (ensures_orFail (Keypair.generate config t randomness)).bind ?_ ?_
  case refine_2 =>
    rintro e s' ⟨rfl, -⟩
    exact .inl (.refl _)
  rintro k s' ⟨rfl, hgenerated⟩
  have hk : Keypair.generate config t randomness = .ok k := (hgenerated k).mp rfl
  refine ensures_report.bind ?_ (by rintro e s' ⟨⟨⟩, -⟩)
  rintro _ s' ⟨-, rfl⟩
  -- Directories that have been made stay when a later step fails, beside the files.
  refine (ensures_makeDirectories h output.parent).bind (fun _ s₁ hextends => ?_)
    fun _ s₁ hextends => .inl hextends
  refine (ensures_writeSecret h hwrites output k.encode).bind (fun _ s₂ hreplaces => ?_) ?_
  case refine_2 =>
    rintro e s₂ (hsame | hspoils)
    · exact .inl (hextends.trans hsame)
    · exact .inr ⟨k, hk, hspoils.of_extends hextends⟩
  refine ensures_report.bind ?_ (by rintro e s' ⟨⟨⟩, -⟩)
  rintro _ s' ⟨-, rfl⟩
  exact .pure ⟨k, hk, rfl, hreplaces.of_extends hextends⟩

/-- Every other command only reads a file. -/
theorem ensures_run_of_ne_generate (config : Config) (randomness : Randomness) {command : Command}
    (hcommand : ∀ t output, command ≠ .generate t output) :
    Ensures (command.run fs config randomness) s fun _ s' => tree s' = tree s := by
  have hread : ∀ (path : Path) (s' : σ), s' = ((fs.read path).run s).2 → tree s' = tree s := by
    rintro path s' rfl
    exact h.read path s
  cases command with
  | generate t output => exact absurd rfl (hcommand t output)
  | inspect path isPublic =>
    cases isPublic <;> exact (ensures_show ensures_load).mono fun _ s' hr => hread path s' hr.1
  | peerId path asCid => exact (ensures_show ensures_load).mono fun _ s' hr => hread path s' hr.1
  | toHex path => exact (ensures_show ensures_load).mono fun _ s' hr => hread path s' hr.1

end Command

/-! ## Fresh keypairs -/

/-- Every entropy leads to an Ed25519 keypair. -/
theorem Keypair.exists_generate_ed25519 (config : Config) (entropy : Bytes) :
    ∃ k, Keypair.generate config .ed25519 (.ok entropy) = .ok k := by
  have hsecret : ∃ k, Ed25519.Keypair.generate? entropy = some k := by
    rw [Ed25519.Keypair.generate?, Ed25519.Keypair.ofSecret, dif_pos (length_shake256 _ _)]
    exact ⟨_, rfl⟩
  obtain ⟨k, hk⟩ := hsecret
  simp only [generate, ofEntropy?, hk]
  exact ⟨_, rfl⟩

namespace CommandLine

variable {σ : Type} {fs : FileSystem (StateM σ)} {tree : σ → FileTree}
  {interrupted : Operation → σ → Prop}

/-- A run that generates a keypair replaces a file and shows the peer identifier, or it fails. -/
theorem generate_cases (h : fs.WorksOn tree) (hwrites : fs.WritesUnless tree interrupted)
    {config : Config} {randomness : Randomness} {args : List String} {t : KeyType} {output : Path}
    (hargs : Executes args (.generate t output)) (s : σ) :
    let (o, s') := (run fs config randomness args).run s
    (o.exit = 0 ∧ ∃ k, Keypair.generate config t randomness = .ok k ∧
        o.stdout = k.peerId.toBase58 ++ "\n" ∧ Replaces output k.encode (tree s) (tree s')) ∨
      o.exit = 1 ∧ (Extends (tree s) (tree s') ∨
        ∃ k, Keypair.generate config t randomness = .ok k ∧
          Spoils (interrupted · s') output k.encode (tree s) (tree s')) := by
  obtain ⟨r, hshows, hend⟩ := exists_of_ensures hargs
    (Command.ensures_runGenerate h hwrites config randomness t output (s := s))
  cases r with
  | ok text =>
    obtain ⟨hexit, hstdout⟩ := hshows
    obtain ⟨k, hk, rfl, hreplaces⟩ := hend
    exact .inl ⟨hexit, k, hk, hstdout, hreplaces⟩
  | error e => exact .inr ⟨hshows.1, hend⟩

/-- A run leaves the files as they are, or it generates a keypair. Then a file is replaced, or it is
spoilt by an interrupted creation or write. -/
theorem run_cases (h : fs.WorksOn tree) (hwrites : fs.WritesUnless tree interrupted)
    (config : Config) (randomness : Randomness) (args : List String) (s : σ) :
    let (o, s') := (run fs config randomness args).run s
    Extends (tree s) (tree s') ∨
      ∃ t output k, Executes args (.generate t output) ∧
        Keypair.generate config t randomness = .ok k ∧
        (o.exit = 0 ∧ Replaces output k.encode (tree s) (tree s') ∨
          Spoils (interrupted · s') output k.encode (tree s) (tree s')) := by
  cases hparse : Command.parse args with
  | error usage =>
    rw [run, hparse]
    exact .inl (.refl _)
  | ok parsed =>
    obtain ⟨style, command⟩ := parsed
    have hargs : Executes args command := ⟨style, hparse⟩
    by_cases hcommand : ∃ t output, command = .generate t output
    · obtain ⟨t, output, rfl⟩ := hcommand
      rcases generate_cases h hwrites hargs s with
        ⟨hexit, k, hk, -, hreplaces⟩ | ⟨-, hsame | ⟨k, hk, hspoils⟩⟩
      · exact .inr ⟨t, output, k, hargs, hk, .inl ⟨hexit, hreplaces⟩⟩
      · exact .inl hsame
      · exact .inr ⟨t, output, k, hargs, hk, .inr hspoils⟩
    · obtain ⟨r, -, hsame⟩ := exists_of_ensures hargs (s := s)
        (Command.ensures_run_of_ne_generate h config randomness fun t output heq =>
          hcommand ⟨t, output, heq⟩)
      exact .inl (.of_eq hsame)

/-- A failed run changes at most one file, the one that a fresh keypair should replace, and that
only if it ends at an interrupted creation or write. The file is gone after the one, and holds a
beginning of the encoding after the other. -/
theorem failed_run_keeps_files (plan : Interruptions) (config : Config) (randomness : Randomness)
    (args : List String) (s : Counted)
    (hexit : ((run (unreliable plan) config randomness args).run s).1.exit ≠ 0) :
    let s' := ((run (unreliable plan) config randomness args).run s).2
    ∀ q, s'.1.file? q ≠ s.1.file? q → ∃ keyType output k,
      Executes args (.generate keyType output) ∧
        Keypair.generate config keyType randomness = .ok k ∧ s'.1.resolve output = .ok q ∧
        (Interrupted plan .createPrivate s' ∧ s'.1.file? q = none ∨
          Interrupted plan .write s' ∧
            ∃ beginning, beginning <+: k.encode ∧
              s'.1.file? q = some (beginning, privateMode)) := by
  intro s' q hq
  rcases run_cases (worksOn_unreliable plan) (writesUnless_unreliable plan) config randomness args s
    with hsame | ⟨keyType, output, k, hargs, hk, ⟨hsuccess, -⟩ | hspoils⟩
  · exact absurd (hsame.file? q) hq
  · exact absurd hsuccess hexit
  · have hresolve := not_not.mp (mt (hspoils.keepsBut.file? q) hq)
    refine ⟨keyType, output, k, hargs, hk, hresolve, ?_⟩
    rcases hspoils.leads with ⟨hcreate, hnone⟩ | ⟨hwrite, beginning, hbegins, hfile⟩
    · exact .inl ⟨hcreate, file?_of_get?_eq_none (hnone.get? hresolve)⟩
    · exact .inr ⟨hwrite, beginning, hbegins, file?_eq_some_iff.mpr (hfile.get? hresolve)⟩

/-- A command line that names a file generates an Ed25519 keypair. -/
theorem parse_generate :
    Command.parse ["generate", "--output", "node.key"] =
      .ok ({}, .generate .ed25519 ⟨"", ["node.key"]⟩) := by
  decide

/-- Where the old file cannot be removed, it stays. -/
theorem failed_run_keeps_files_of_remove :
    let t : FileTree := { nodes := [(["node.key"], .file [1, 2, 3] 0o644)] }
    let plan : Interruptions := fun kind _ =>
      if kind = .remove then some { fault := .other 1 "Operation not permitted" } else none
    let ended := (run (unreliable plan) .standard (.ok [])
      ["generate", "--output", "node.key"]).run (t, 0)
    ended.1.exit ≠ 0 ∧ ∀ q, ended.2.1.file? q = t.file? q := by
  intro t plan ended
  obtain ⟨k, hk⟩ := Keypair.exists_generate_ed25519 .standard []
  have hexit : ended.1.exit ≠ 0 := by
    simp only [ended, run, parse_generate, Command.run, Command.runGenerate, hk]
    exact Nat.one_ne_zero
  refine ⟨hexit, fun q => by_contra fun hq => ?_⟩
  obtain ⟨_, _, _, -, -, -, ⟨⟨_, -, hcreate⟩, -⟩ | ⟨⟨_, -, hwrite⟩, -⟩⟩ :=
    failed_run_keeps_files plan _ _ _ _ hexit q hq
  · cases hcreate
  · cases hwrite

/-- Where the old file is removed and the new one cannot be created, the old one is lost. -/
theorem failed_run_loses_file :
    let t : FileTree := { nodes := [(["node.key"], .file [1, 2, 3] 0o644)] }
    let plan : Interruptions := fun kind _ =>
      if kind = .createPrivate then some { fault := .noSpace } else none
    let ended := (run (unreliable plan) .standard (.ok [])
      ["generate", "--output", "node.key"]).run (t, 0)
    ended.1.exit ≠ 0 ∧ t.file? ["node.key"] = some ([1, 2, 3], 0o644) ∧
      ended.2.1.file? ["node.key"] = none := by
  intro t plan ended
  obtain ⟨k, hk⟩ := Keypair.exists_generate_ed25519 .standard []
  simp only [ended, run, parse_generate, Command.run, Command.runGenerate, hk]
  exact ⟨Nat.one_ne_zero, rfl, rfl⟩

end CommandLine

end PeerIdentity
