import PeerIdentity.Files.Unreliable
import PeerIdentity.Proofs.Files.Tree

/-!
# File systems on trees

A file system works on a tree that is part of its state if every operation that succeeds changes
the tree as the operation of trees does, and every operation that is refused leaves the tree as it
is, up to a write that stops early. Nothing is said about when an operation is refused, so trees
with and without interruptions are both of this kind.

* `FileSystem.WorksOn`: the operations change a tree, or are refused;
* `FileSystem.WritesUnless`: only interruptions and the tree refuse to create and to write files;
* `FileTree.worksOn_unreliable`, `FileTree.writesUnless_unreliable`: trees that refuse operations;
* `FileSystem.WorksOn.onlyExtends_makeDirectories`: directories are made beside the files.
-/

namespace PeerIdentity

open FileTree

variable {σ : Type} {fs : FileSystem (StateM σ)} {tree : σ → FileTree}

/-! ## Operations on a state -/

/-- An operation on a state changes a tree like an operation on trees. When it is refused, it leaves
a tree that `leaves` allows. -/
structure Performs (tree : σ → FileTree) (x : StateM σ (Except FileError Unit))
    (operation : FileTree → Except FileFault FileTree)
    (leaves : FileTree → FileTree → Prop) : Prop where
  ok {s s' : σ} : x.run s = (.ok (), s') → operation (tree s) = .ok (tree s')
  error {s s' : σ} {e : FileError} : x.run s = (.error e, s') → leaves (tree s) (tree s')

/-- A refused operation of most kinds leaves the tree as it is. -/
abbrev Untouched (t u : FileTree) : Prop :=
  u = t

/-- A refused write may leave a beginning of the contents. -/
def BeginsWrite (p : Path) (contents : Bytes) (t u : FileTree) : Prop :=
  u = t ∨ ∃ beginning, beginning <+: contents ∧ t.write p beginning = .ok u

namespace FileSystem

/-- The operations of a file system change a tree that is part of its state. -/
structure WorksOn (fs : FileSystem (StateM σ)) (tree : σ → FileTree) : Prop where
  read (p : Path) (s : σ) : tree ((fs.read p).run s).2 = tree s
  isDirectory (p : Path) (s : σ) : tree ((fs.isDirectory p).run s).2 = tree s
  makeDirectory (p : Path) :
    Performs tree (fs.makeDirectory p) (fun t => t.insertNew p .directory) Untouched
  remove (p : Path) : Performs tree (fs.remove p) (fun t => t.remove p) Untouched
  createPrivate (p : Path) :
    Performs tree (fs.createPrivate p) (fun t => t.insertNew p (.file [] privateMode)) Untouched
  write (p : Path) (contents : Bytes) :
    Performs tree (fs.write p contents) (fun t => t.write p contents) (BeginsWrite p contents)

/-- A file is created and written wherever the tree has room for it, unless the operation is
interrupted. The state after an operation tells whether it was. -/
structure WritesUnless (fs : FileSystem (StateM σ)) (tree : σ → FileTree)
    (interrupted : Operation → σ → Prop) : Prop where
  createPrivate {p : Path} {s s' : σ} {t : FileTree} {e : FileError} :
    (tree s).insertNew p (.file [] privateMode) = .ok t →
      (fs.createPrivate p).run s = (.error e, s') → interrupted .createPrivate s'
  write {p : Path} {contents : Bytes} {s s' : σ} {t : FileTree} {e : FileError} :
    (tree s).write p contents = .ok t →
      (fs.write p contents).run s = (.error e, s') → interrupted .write s'

end FileSystem

/-! ## Trees as file systems -/

namespace FileTree

variable {p : Path} {operation : FileTree → Except FileFault FileTree}

/-- An operation that is possible changes the tree. -/
theorem run_change_of_ok {t u : FileTree} (h : operation t = .ok u) :
    (change p operation).run t = (.ok (), u) := by
  change change p operation t = _
  rw [change, h]

/-- An operation that is refused leaves the tree as it is, and the refusal names the path. -/
theorem run_change_of_error {t : FileTree} {fault : FileFault} (h : operation t = .error fault) :
    (change p operation).run t = (.error ⟨fault, p⟩, t) := by
  change change p operation t = _
  rw [change, h]

/-- An operation on a tree that is state performs the operation on trees. -/
theorem performs_change : Performs id (change p operation) operation Untouched where
  ok {t t'} h := by
    cases hoperation : operation t with
    | ok u =>
      rw [run_change_of_ok hoperation] at h
      cases h
      exact hoperation
    | error fault =>
      rw [run_change_of_error hoperation] at h
      cases h
  error {t t' e} h := by
    cases hoperation : operation t with
    | ok u =>
      rw [run_change_of_ok hoperation] at h
      cases h
    | error fault =>
      rw [run_change_of_error hoperation] at h
      cases h
      rfl

/-- A tree that is state works on itself. -/
theorem worksOn_system : system.WorksOn id where
  read _ _ := rfl
  isDirectory _ _ := rfl
  makeDirectory _ := performs_change
  remove _ := performs_change
  createPrivate _ := performs_change
  write _ _ := ⟨performs_change.ok, fun h => .inl (performs_change.error h)⟩

/-- Nothing is interrupted. -/
theorem writesUnless_system : system.WritesUnless id fun _ _ => False where
  createPrivate {p _ _ _ _} hroom hrun := nomatch (run_change_of_ok (p := p) hroom).symm.trans hrun
  write {p _ _ _ _ _} hroom hrun := nomatch (run_change_of_ok (p := p) hroom).symm.trans hrun

/-! ## Trees that refuse operations -/

variable {plan : Interruptions} {kind : Operation} {α : Type} {operationOn : StateM FileTree α}

/-- An operation that is not interrupted is made, and counted. -/
theorem run_attempt_of_none {refused : Interruption → α}
    {leave : Interruption → FileTree → FileTree} {s : Counted} (h : plan kind s.2 = none) :
    (attempt plan kind refused leave operationOn).run s =
      ((operationOn.run s.1).1, ((operationOn.run s.1).2, s.2 + 1)) := by
  change attempt plan kind refused leave operationOn s = _
  rw [attempt, h]
  rfl

/-- An operation that is interrupted is counted, and leaves what it is said to leave. -/
theorem run_attempt_of_some {refused : Interruption → α}
    {leave : Interruption → FileTree → FileTree} {s : Counted} {i : Interruption}
    (h : plan kind s.2 = some i) :
    (attempt plan kind refused leave operationOn).run s =
      (refused i, (leave i s.1, s.2 + 1)) := by
  change attempt plan kind refused leave operationOn s = _
  rw [attempt, h]

/-- An operation that leaves the tree as it is may be interrupted. -/
theorem tree_attempt {refused : Interruption → α} {s : Counted}
    (h : ∀ t, (operationOn.run t).2 = t) :
    ((attempt plan kind refused (fun _ t => t) operationOn).run s).2.1 = s.1 := by
  cases hplan : plan kind s.2 with
  | some i => rw [run_attempt_of_some hplan]
  | none =>
    rw [run_attempt_of_none hplan]
    exact h s.1

/-- An interrupted operation is a refused one, with what the interruption leaves. -/
theorem performs_attempt {x : StateM FileTree (Except FileError Unit)}
    {refused : Interruption → FileError} {leave : Interruption → FileTree → FileTree}
    {leaves : FileTree → FileTree → Prop} (hx : Performs id x operation leaves)
    (hleave : ∀ i t, leaves t (leave i t)) :
    Performs Prod.fst (attempt plan kind (fun i => .error (refused i)) leave x) operation
      leaves where
  ok {s s'} h := by
    cases hplan : plan kind s.2 with
    | some i =>
      rw [run_attempt_of_some hplan] at h
      cases h
    | none =>
      rw [run_attempt_of_none hplan] at h
      obtain ⟨hresult, rfl⟩ := Prod.ext_iff.mp h
      exact hx.ok (Prod.ext hresult rfl)
  error {s s' e} h := by
    cases hplan : plan kind s.2 with
    | some i =>
      rw [run_attempt_of_some hplan] at h
      cases h
      exact hleave i s.1
    | none =>
      rw [run_attempt_of_none hplan] at h
      obtain ⟨hresult, rfl⟩ := Prod.ext_iff.mp h
      exact hx.error (Prod.ext hresult rfl)

/-- What an interrupted write leaves is a beginning of the contents, or nothing. -/
theorem beginsWrite_writeBeginning (t : FileTree) (p : Path) (contents : Bytes) (count : Nat) :
    BeginsWrite p contents t (t.writeBeginning p contents count) := by
  unfold writeBeginning
  cases h : t.write p (contents.take count) with
  | error fault => exact .inl rfl
  | ok u => exact .inr ⟨contents.take count, List.take_prefix count contents, h⟩

/-- A tree that refuses operations works on the tree that is counted. -/
theorem worksOn_unreliable (plan : Interruptions) : (unreliable plan).WorksOn Prod.fst where
  read p _ := tree_attempt fun t => worksOn_system.read p t
  isDirectory p _ := tree_attempt fun t => worksOn_system.isDirectory p t
  makeDirectory p := performs_attempt (worksOn_system.makeDirectory p) fun _ _ => rfl
  remove p := performs_attempt (worksOn_system.remove p) fun _ _ => rfl
  createPrivate p := performs_attempt (worksOn_system.createPrivate p) fun _ _ => rfl
  write p contents :=
    performs_attempt (worksOn_system.write p contents) fun i t =>
      t.beginsWrite_writeBeginning p contents i.written

/-- The plan interrupts operations of a kind where the last operation was. -/
def Interrupted (plan : Interruptions) (kind : Operation) (s : Counted) : Prop :=
  ∃ count, s.2 = count + 1 ∧ (plan kind count).isSome

/-- An operation that the tree allows is refused only because it is interrupted. -/
theorem interrupted_attempt {x : StateM FileTree (Except FileError Unit)}
    {refused : Interruption → FileError} {leave : Interruption → FileTree → FileTree}
    {s s' : Counted} {e : FileError} (hx : (x.run s.1).1 = .ok ())
    (h : (attempt plan kind (fun i => .error (refused i)) leave x).run s = (.error e, s')) :
    Interrupted plan kind s' := by
  cases hplan : plan kind s.2 with
  | some i =>
    rw [run_attempt_of_some hplan] at h
    cases h
    exact ⟨s.2, rfl, by rw [hplan]; rfl⟩
  | none =>
    rw [run_attempt_of_none hplan, hx] at h
    cases h

/-- A tree that refuses operations creates and writes files unless the plan interrupts it. -/
theorem writesUnless_unreliable (plan : Interruptions) :
    (unreliable plan).WritesUnless Prod.fst (Interrupted plan) where
  createPrivate {p s _ _ _} hroom hrun := by
    change (attempt plan .createPrivate (fun i => .error ⟨i.fault, p⟩) (fun _ t => t)
      (system.createPrivate p)).run s = _ at hrun
    exact interrupted_attempt (congrArg Prod.fst (run_change_of_ok hroom)) hrun
  write {p contents s _ _ _} hroom hrun := by
    change (attempt plan .write (fun i => .error ⟨i.fault, p⟩)
      (fun i t => t.writeBeginning p contents i.written)
      (system.write p contents)).run s = _ at hrun
    exact interrupted_attempt (congrArg Prod.fst (run_change_of_ok hroom)) hrun

end FileTree

/-! ## Directories -/

/-- An operation on a state may add directories to a tree, and nothing else. -/
def OnlyExtends {α : Type} (tree : σ → FileTree) (x : StateM σ α) : Prop :=
  ∀ s, Extends (tree s) (tree (x.run s).2)

namespace OnlyExtends

variable {α β : Type}

theorem pure (a : α) : OnlyExtends tree (Pure.pure a : StateM σ α) :=
  fun s => .refl (tree s)

theorem bind {x : StateM σ α} {f : α → StateM σ β} (hx : OnlyExtends tree x)
    (hf : ∀ a, OnlyExtends tree (f a)) : OnlyExtends tree (x >>= f) :=
  fun s => (hx s).trans (hf (x.run s).1 (x.run s).2)

end OnlyExtends

namespace FileSystem.WorksOn

variable (h : fs.WorksOn tree)

include h

/-- Looking for a directory changes no tree. -/
theorem onlyExtends_isDirectory (p : Path) : OnlyExtends tree (fs.isDirectory p) :=
  fun s => .of_eq (h.isDirectory p s)

/-- Making a directory only adds it, where nothing stood. -/
theorem onlyExtends_makeDirectory (p : Path) : OnlyExtends tree (fs.makeDirectory p) := by
  intro s
  rcases hrun : (fs.makeDirectory p).run s with ⟨_ | _, s'⟩
  case error e =>
    exact .of_eq ((h.makeDirectory p).error hrun)
  case ok => exact extends_of_insertNew ((h.makeDirectory p).ok hrun)

/-- Making a directory unless it is there only adds it. -/
theorem onlyExtends_ensureDirectory (p : Path) : OnlyExtends tree (fs.ensureDirectory p) := by
  refine (h.onlyExtends_makeDirectory p).bind fun r => ?_
  cases r with
  | ok => exact .pure _
  | error e => exact (h.onlyExtends_isDirectory p).bind fun _ => .pure _

/-- Making the directories on the way only adds directories. -/
theorem onlyExtends_makeDirectoriesTo (count : Nat) (p : Path) :
    OnlyExtends tree (fs.makeDirectoriesTo count p) := by
  induction count generalizing p with
  | zero => exact h.onlyExtends_ensureDirectory p
  | succ count ih =>
    refine (h.onlyExtends_makeDirectory p).bind fun r => ?_
    cases r with
    | ok => exact .pure _
    | error e =>
      dsimp only
      split
      next =>
        -- The directory above was missing, so it is made first, and then this one.
        refine (ih p.parent).bind fun r => ?_
        cases r with
        | ok => exact h.onlyExtends_ensureDirectory p
        | error e => exact .pure _
      next => exact (h.onlyExtends_isDirectory p).bind fun _ => .pure _

/-- Directories are made beside the files, also when one of them cannot be made. -/
theorem onlyExtends_makeDirectories (p : Path) : OnlyExtends tree (fs.makeDirectories p) :=
  h.onlyExtends_makeDirectoriesTo p.parts.length p

/-! ## Removal -/

/-- A file is removed, or the tree stays as it is. -/
theorem removeIfThere_cases {p : Path} {s s' : σ} {r : Except FileError Unit}
    (hrun : (fs.removeIfThere p).run s = (r, s')) :
    tree s' = tree s ∨ r = .ok () ∧ (tree s).remove p = .ok (tree s') := by
  unfold removeIfThere at hrun
  rw [StateT.run_bind] at hrun
  rcases hremove : (fs.remove p).run s with ⟨_ | _, u⟩ <;> rw [hremove] at hrun <;> cases hrun
  case error e => exact .inl ((h.remove p).error hremove)
  case ok => exact .inr ⟨rfl, (h.remove p).ok hremove⟩

end FileSystem.WorksOn

end PeerIdentity
