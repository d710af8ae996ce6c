import PeerIdentity.CommandLine.Run
import PeerIdentity.Proofs.Result

/-!
# What commands end with

A command that is started on a state ends with a result and a state. Conditions on both are carried
along the steps of the command. The log plays no part in them: no step depends on what has been
reported before it.

* `Command.Ensures`: every end of a command meets a condition;
* `Command.Ensures.bind`: the condition of a step carries over to the steps after it;
* `Command.ensures_show`: how a command ends that shows what a file holds;
* `CommandLine.exists_of_ensures`: what a command line shows when its command meets a condition.
-/

namespace PeerIdentity

namespace Command

variable {σ α β : Type} {s : σ} {Q R : Except CommandError α → σ → Prop}

/-- A command started on a state ends with a result and a state that meet a condition. -/
def Ensures (x : CommandM (StateM σ) α) (s : σ) (Q : Except CommandError α → σ → Prop) : Prop :=
  ∀ log, Q ((x.run.run log).run s).1.1 ((x.run.run log).run s).2

/-! ## Steps -/

theorem Ensures.mono {x : CommandM (StateM σ) α} (hx : Ensures x s R)
    (h : ∀ r s', R r s' → Q r s') : Ensures x s Q :=
  fun log => h _ _ (hx log)

theorem Ensures.pure {a : α} (h : Q (.ok a) s) : Ensures (Pure.pure a) s Q :=
  fun _ => h

theorem Ensures.throw {e : CommandError} (h : Q (.error e) s) : Ensures (MonadExcept.throw e) s Q :=
  fun _ => h

/-- A command goes on where its first step ends, or stops there. -/
theorem Ensures.bind {x : CommandM (StateM σ) α} {f : α → CommandM (StateM σ) β}
    {Q : Except CommandError β → σ → Prop} (hx : Ensures x s R)
    (hok : ∀ a s', R (.ok a) s' → Ensures (f a) s' Q)
    (herror : ∀ e s', R (.error e) s' → Q (.error e) s') : Ensures (x >>= f) s Q := by
  intro log
  have hfirst := hx log
  rw [ExceptT.run_bind, StateT.run_bind, StateT.run_bind]
  rcases hrun : (x.run.run log).run s with ⟨⟨_ | _, log'⟩, s'⟩ <;> rw [hrun] at hfirst
  case error e => exact herror e s' hfirst
  case ok a => exact hok a s' hfirst log'

/-- A report succeeds and changes nothing but the log. -/
theorem ensures_report {level : LogLevel} {source : LogSource} {message : String} :
    Ensures (report level source message) s fun r s' => r = .ok () ∧ s' = s :=
  fun _ => ⟨rfl, rfl⟩

/-- An operation that cannot fail ends with its result. -/
theorem ensures_monadLift (operation : StateM σ α) :
    Ensures (monadLift operation) s fun r s' =>
      r = .ok (operation.run s).1 ∧ s' = (operation.run s).2 :=
  fun _ => ⟨rfl, rfl⟩

/-- An operation on files ends the command exactly if it is refused. -/
theorem ensures_onFiles (operation : StateM σ (Except FileError α)) :
    Ensures (onFiles operation) s fun r s' =>
      r = (operation.run s).1.mapError .file ∧ s' = (operation.run s).2 := by
  refine (ensures_monadLift operation).bind ?_ ?_
  · rintro result s' ⟨hresult, rfl⟩
    cases hresult
    cases (operation.run s).1 with
    | ok a => exact .pure ⟨rfl, rfl⟩
    | error e => exact .throw ⟨rfl, rfl⟩
  · rintro e s' ⟨⟨⟩, -⟩

/-- A result ends the step exactly if it is no failure, and no state changes. -/
theorem ensures_orFail (x : Except Failure α) :
    Ensures (orFail x) s fun r s' => s' = s ∧ ∀ a, r = .ok a ↔ x = .ok a := by
  cases x with
  | ok a => exact .pure ⟨rfl, by simp⟩
  | error e => cases e <;> exact .throw ⟨rfl, by simp⟩

/-- A decoded key ends the step exactly if it is not refused, and no state changes. -/
theorem ensures_decoded {source : LogSource} {noun : String} (x : Except IdentityError α) :
    Ensures (decoded source noun x) s fun r s' => s' = s ∧ ∀ a, r = .ok a ↔ x = .ok a := by
  cases x with
  | ok a => exact .pure ⟨rfl, by simp⟩
  | error e =>
    -- The refusal of a key of known type is reported first.
    by_cases htype : ∃ t detail, e = .decoding (some t) detail
    · obtain ⟨t, detail, rfl⟩ := htype
      refine ensures_report.bind ?_ (by rintro e s' ⟨⟨⟩, -⟩)
      rintro a s' ⟨-, rfl⟩
      exact .throw ⟨rfl, by simp⟩
    · rw [decoded]
      · exact .throw ⟨rfl, by simp⟩
      · exact fun t detail he => htype ⟨t, detail, he⟩

/-! ## Reading a file -/

/-- A file is read, and its contents decode to a given value. -/
def Loads (read : Except FileError Bytes) (decode : Bytes → Except IdentityError α) (a : α) :
    Prop :=
  ∃ contents, read = .ok contents ∧ decode contents = .ok a

/-- Loading a key does nothing but read the file, and ends well exactly if the contents decode. -/
theorem ensures_load {fs : FileSystem (StateM σ)} {path : Path} {source : LogSource}
    {noun : String} {decode : Bytes → Except IdentityError α} :
    Ensures (do decoded source noun (decode (← onFiles (fs.read path)))) s fun r s' =>
      s' = ((fs.read path).run s).2 ∧ ∀ a, r = .ok a ↔ Loads ((fs.read path).run s).1 decode a := by
  refine (ensures_onFiles (fs.read path)).bind ?_ ?_
  · rintro contents s' ⟨hread, rfl⟩
    have hcontents : ((fs.read path).run s).1 = .ok contents := mapError_eq_ok_iff.mp hread.symm
    refine (ensures_decoded (decode contents)).mono ?_
    rintro r s' ⟨rfl, hr⟩
    exact ⟨rfl, fun a => by simp [hr, Loads, hcontents]⟩
  · rintro e s' ⟨hread, rfl⟩
    refine ⟨rfl, fun a => ⟨nofun, ?_⟩⟩
    rintro ⟨contents, hcontents, -⟩
    rw [hcontents] at hread
    cases hread

/-- A command that shows what a file holds does nothing but read the file. It ends well exactly if
the file is read and its contents decode. -/
theorem ensures_show {load : CommandM (StateM σ) α} {s₁ : σ} {P : α → Prop} {text : α → String}
    (hload : Ensures load s fun r s' => s' = s₁ ∧ ∀ a, r = .ok a ↔ P a) :
    Ensures (do return text (← load)) s fun r s' =>
      s' = s₁ ∧ ∀ output, r = .ok output ↔ ∃ a, P a ∧ text a = output := by
  refine hload.bind ?_ ?_
  · rintro a s' ⟨rfl, hr⟩
    refine .pure ⟨rfl, fun output => ?_⟩
    simp [← hr]
  · rintro e s' ⟨rfl, hr⟩
    exact ⟨rfl, fun output => by simp [← hr]⟩

end Command

/-! ## Command lines -/

/-- A command line names a command. -/
def Executes (args : List String) (command : Command) : Prop :=
  ∃ style, Command.parse args = .ok (style, command)

/-- What is on the terminal after a command has ended with a result. -/
def Outcome.Shows (o : Outcome) : Except CommandError String → Prop
  | .ok output => o.exit = 0 ∧ o.stdout = output ++ "\n"
  | .error _ => o.exit = 1 ∧ o.stdout = ""

namespace CommandLine

variable {σ : Type} {fs : FileSystem (StateM σ)} {config : Config} {randomness : Randomness}
  {args : List String} {command : Command} {s : σ}

/-- A command that stops fails, whether or not its error is caught. -/
theorem shows_fail (style : LogStyle) (log : List LogLine) (e : CommandError) :
    (fail style log e).Shows (.error e) := by
  unfold fail
  split <;> exact ⟨rfl, rfl⟩

/-- The terminal shows the result with which a command has ended. -/
theorem shows_finish (style : LogStyle) (r : Except CommandError String) (log : List LogLine) :
    (finish style (r, log)).Shows r := by
  cases r with
  | ok output => exact ⟨rfl, rfl⟩
  | error e => exact shows_fail style log e

/-- A command line shows the result of its command, whose conditions hold of what it shows. -/
theorem exists_of_ensures {Q : Except CommandError String → σ → Prop}
    (hargs : Executes args command)
    (hcommand : Command.Ensures (command.run fs config randomness) s Q) :
    ∃ r, ((run fs config randomness args).run s).1.Shows r ∧
      Q r ((run fs config randomness args).run s).2 := by
  obtain ⟨style, hparse⟩ := hargs
  rw [run, hparse]
  exact ⟨_, shows_finish style _ _, hcommand []⟩

end CommandLine

end PeerIdentity
