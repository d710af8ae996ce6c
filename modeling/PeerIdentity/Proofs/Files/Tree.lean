import PeerIdentity.Files.Tree

/-!
# Changes of file trees

An operation that succeeds changes one place of a tree, the one that its path leads to, and leaves
every other place as it is.

* `get?_set_of_ne`, `get?_erase_of_ne`: other places are left as they are;
* `insertNew_eq_ok_iff`, `remove_eq_ok_iff`, `write_eq_ok_iff`, `read_eq_ok_iff`: when an operation
  succeeds, and the tree after it;
* `Keeps`: a tree has the directories of another one and its working directory, so that paths lead
  to the same places;
* `Leads`: what stands where a path leads, after each of the operations;
* `Extends`, `KeepsBut`: a tree has the directories and the files of another one, all or all but
  where a path leads.
-/

namespace PeerIdentity.FileTree

variable {t u v : FileTree} {place q : List String} {node : FileNode} {p : Path}

/-! ## Places -/

@[simp]
theorem get?_nil (t : FileTree) : t.get? [] = some .directory :=
  if_pos rfl

/-- Where no directory stands is not the root. -/
theorem ne_nil_of_get? (h : t.get? place ≠ some .directory) : place ≠ [] := by
  rintro rfl
  exact h t.get?_nil

/-- What stands at other places is found without the entries of a place. -/
theorem lookup_filter_ne {nodes : List (List String × FileNode)} (h : q ≠ place) :
    (nodes.filter (·.1 ≠ place)).lookup q = nodes.lookup q := by
  induction nodes with
  | nil => rfl
  | cons entry nodes ih =>
    obtain ⟨key, node⟩ := entry
    by_cases hkey : key = place
    · have hq : (q == key) = false := by simpa [hkey] using h
      rw [List.filter_cons_of_neg (by simpa using hkey), List.lookup_cons, hq, ih]
    · rw [List.filter_cons_of_pos (by simpa using hkey), List.lookup_cons, List.lookup_cons, ih]

/-- Nothing is found at a place without the entries of it. -/
theorem lookup_filter_self {nodes : List (List String × FileNode)} :
    (nodes.filter (·.1 ≠ place)).lookup place = none := by
  rw [List.lookup_eq_none_iff]
  intro entry hentry
  have hne : entry.1 ≠ place := by simpa using (List.mem_filter.mp hentry).2
  exact bne_iff_ne.mpr hne.symm

/-- What is put at a place stands there. The root is always a directory. -/
theorem get?_set_self (h : place ≠ []) : (t.set place node).get? place = some node := by
  rw [get?, if_neg h, set, List.lookup_cons_self]

/-- What stands at other places stays where something is put at a place. -/
theorem get?_set_of_ne (h : q ≠ place) : (t.set place node).get? q = t.get? q := by
  have hq : (q == place) = false := by simpa using h
  simp only [get?, set, List.lookup_cons, hq, lookup_filter_ne h]

/-- Nothing stands at a place from which it was taken away. -/
theorem get?_erase_self (h : place ≠ []) : (t.erase place).get? place = none := by
  rw [get?, if_neg h, erase, lookup_filter_self]

/-- What stands at other places stays where something is taken away. -/
theorem get?_erase_of_ne (h : q ≠ place) : (t.erase place).get? q = t.get? q := by
  simp only [get?, erase, lookup_filter_ne h]

/-- The contents and the mode of the file at a place. -/
def file? (t : FileTree) (place : List String) : Option (Bytes × Nat) :=
  match t.get? place with
  | some (.file contents mode) => some (contents, mode)
  | _ => none

/-- A file is at a place exactly if it stands there. -/
theorem file?_eq_some_iff {contents : Bytes} {mode : Nat} :
    t.file? place = some (contents, mode) ↔ t.get? place = some (.file contents mode) := by
  unfold file?
  cases h : t.get? place with
  | none => simp
  | some node => cases node <;> simp

/-- Where nothing stands is no file. -/
theorem file?_of_get?_eq_none (h : t.get? place = none) : t.file? place = none := by
  rw [file?, h]

/-- Trees with the same at a place have the same file there. -/
theorem file?_congr (h : u.get? q = t.get? q) : u.file? q = t.file? q := by
  rw [file?, file?, h]

/-! ## Operations -/

/-- The contents of a file are read exactly if the path leads to the file. -/
theorem read_eq_ok_iff {contents : Bytes} :
    t.read p = .ok contents ↔
      ∃ place mode, t.resolve p = .ok place ∧ t.get? place = some (.file contents mode) := by
  unfold read
  cases t.resolve p with
  | error fault => simp
  | ok place => cases h : t.get? place with
    | none => simp [h]
    | some node => cases node <;> simp [h, eq_comm]

/-- Something new is put exactly where a path leads and nothing stands, and nowhere else. -/
theorem insertNew_eq_ok_iff :
    t.insertNew p node = .ok u ↔
      ∃ place, t.resolve p = .ok place ∧ t.get? place = none ∧ u = t.set place node := by
  unfold insertNew
  cases t.resolve p with
  | error fault => simp
  | ok place => cases h : t.get? place <;> simp [h, eq_comm]

/-- A file is removed exactly where a path leads to one, and nothing else is. -/
theorem remove_eq_ok_iff :
    t.remove p = .ok u ↔
      ∃ place contents mode, t.resolve p = .ok place ∧
        t.get? place = some (.file contents mode) ∧ u = t.erase place := by
  unfold remove
  cases t.resolve p with
  | error fault => simp
  | ok place => cases h : t.get? place with
    | none => simp [h]
    | some node => cases node <;> simp [h, eq_comm]

/-- A file is written exactly where a path leads to one, which keeps its mode. -/
theorem write_eq_ok_iff {contents : Bytes} :
    t.write p contents = .ok u ↔
      ∃ place old mode, t.resolve p = .ok place ∧ t.get? place = some (.file old mode) ∧
        u = t.set place (.file contents mode) := by
  unfold write
  cases t.resolve p with
  | error fault => simp
  | ok place => cases h : t.get? place with
    | none => simp [h]
    | some node => cases node <;> simp [h, eq_comm, and_assoc]

/-! ## Directories -/

/-- A tree has the directories of another one, and the same working directory. -/
structure Keeps (t u : FileTree) : Prop where
  workingDirectory : u.workingDirectory = t.workingDirectory
  directory (q : List String) : t.get? q = some .directory → u.get? q = some .directory

theorem Keeps.refl (t : FileTree) : Keeps t t :=
  ⟨rfl, fun _ h => h⟩

theorem Keeps.trans (htu : Keeps t u) (huv : Keeps u v) : Keeps t v :=
  ⟨huv.workingDirectory.trans htu.workingDirectory, fun q h => huv.directory q (htu.directory q h)⟩

/-- The directories on the way stay, so a path leads where it led. -/
theorem Keeps.walk (h : Keeps t u) {parts : List String} {start : List String}
    (hwalk : t.walk start parts = .ok place) : u.walk start parts = .ok place := by
  induction parts generalizing start with
  | nil => exact hwalk
  | cons part parts ih =>
    rw [FileTree.walk] at hwalk ⊢
    split at hwalk
    next => cases hwalk
    next => cases hwalk
    next hstart =>
      -- Each step starts from a directory, which the other tree has, too.
      simp only [h.directory _ hstart]
      split at hwalk
      next => cases hwalk
      next hlength =>
        rw [if_neg hlength]
        split at hwalk
        next hback => rw [if_pos hback, ih hwalk]
        next hback => rw [if_neg hback, ih hwalk]

/-- A path that leads to a place leads there still when the directories are kept. -/
theorem Keeps.resolve (h : Keeps t u) (hresolve : t.resolve p = .ok place) :
    u.resolve p = .ok place := by
  have hstart : u.start p = t.start p := by rw [start, start, h.workingDirectory]
  rw [FileTree.resolve, hstart]
  exact h.walk hresolve

/-- A change at a place where no directory stands keeps the directories. -/
theorem keeps_of_get? (hworking : u.workingDirectory = t.workingDirectory)
    (hplace : t.get? place ≠ some .directory) (hother : ∀ q, q ≠ place → u.get? q = t.get? q) :
    Keeps t u := by
  refine ⟨hworking, fun q hq => ?_⟩
  have hne : q ≠ place := by
    rintro rfl
    exact hplace hq
  rw [hother q hne, hq]

/-- The directories are kept when something is put where none of them stands. -/
theorem keeps_set (h : t.get? place ≠ some .directory) : Keeps t (t.set place node) :=
  keeps_of_get? rfl h fun _ => get?_set_of_ne

/-- The directories are kept when what is taken away is none of them. -/
theorem keeps_erase (h : t.get? place ≠ some .directory) : Keeps t (t.erase place) :=
  keeps_of_get? rfl h fun _ => get?_erase_of_ne

/-! ## What a path leads to -/

/-- A path leads to a place where a given thing stands, or nothing. -/
def Leads (t : FileTree) (p : Path) (found : Option FileNode) : Prop :=
  ∃ place, t.resolve p = .ok place ∧ t.get? place = found

/-- What a path leads to stands at the place to which it leads. -/
theorem Leads.get? {found : Option FileNode} (h : t.Leads p found)
    (hresolve : t.resolve p = .ok place) : t.get? place = found := by
  obtain ⟨place', hresolve', hfound⟩ := h
  cases hresolve.symm.trans hresolve'
  exact hfound

/-- Something new is put wherever a path leads to nothing. -/
theorem insertNew_of_leads (h : t.Leads p none) : ∃ u, t.insertNew p node = .ok u := by
  obtain ⟨place, hresolve, hnone⟩ := h
  exact ⟨_, insertNew_eq_ok_iff.mpr ⟨place, hresolve, hnone, rfl⟩⟩

/-- A file to which a path leads can be written. -/
theorem write_of_leads {old : Bytes} {mode : Nat} (h : t.Leads p (some (.file old mode)))
    (contents : Bytes) : ∃ u, t.write p contents = .ok u := by
  obtain ⟨place, hresolve, hfile⟩ := h
  exact ⟨_, write_eq_ok_iff.mpr ⟨place, old, mode, hresolve, hfile, rfl⟩⟩

/-- A path leads to what was put at its end. -/
theorem leads_of_insertNew (h : t.insertNew p node = .ok u) : u.Leads p (some node) := by
  obtain ⟨place, hresolve, hnone, rfl⟩ := insertNew_eq_ok_iff.mp h
  have hplace : t.get? place ≠ some .directory := by simp [hnone]
  exact ⟨place, (keeps_set hplace).resolve hresolve, get?_set_self (ne_nil_of_get? hplace)⟩

/-- A path leads to nothing when the file at its end was removed. -/
theorem leads_of_remove (h : t.remove p = .ok u) : u.Leads p none := by
  obtain ⟨place, contents, mode, hresolve, hfile, rfl⟩ := remove_eq_ok_iff.mp h
  have hplace : t.get? place ≠ some .directory := by simp [hfile]
  exact ⟨place, (keeps_erase hplace).resolve hresolve, get?_erase_self (ne_nil_of_get? hplace)⟩

/-- A file that is written keeps its mode. -/
theorem leads_of_write {old contents : Bytes} {mode : Nat} (h : t.write p contents = .ok u)
    (hold : t.Leads p (some (.file old mode))) : u.Leads p (some (.file contents mode)) := by
  obtain ⟨place, old', mode', hresolve, hfile, rfl⟩ := write_eq_ok_iff.mp h
  have hplace : t.get? place ≠ some .directory := by simp [hfile]
  cases hfile.symm.trans (hold.get? hresolve)
  exact ⟨place, (keeps_set hplace).resolve hresolve, get?_set_self (ne_nil_of_get? hplace)⟩

/-! ## What is left as it is -/

/-- A tree has the directories of another one and the same files. -/
structure Extends (t u : FileTree) : Prop where
  keeps : Keeps t u
  file? (q : List String) : u.file? q = t.file? q

theorem Extends.refl (t : FileTree) : Extends t t :=
  ⟨.refl t, fun _ => rfl⟩

theorem Extends.of_eq (h : u = t) : Extends t u :=
  h ▸ .refl t

theorem Extends.trans (htu : Extends t u) (huv : Extends u v) : Extends t v :=
  ⟨htu.keeps.trans huv.keeps, fun q => (huv.file? q).trans (htu.file? q)⟩

/-- A directory where nothing stood leaves the files as they are. -/
theorem extends_of_insertNew (h : t.insertNew p .directory = .ok u) : Extends t u := by
  obtain ⟨place, -, hnone, rfl⟩ := insertNew_eq_ok_iff.mp h
  have hplace : t.get? place ≠ some .directory := by simp [hnone]
  refine ⟨keeps_set hplace, fun q => ?_⟩
  by_cases hq : q = place
  -- No file stood at the place, and a directory is none.
  · subst hq
    rw [FileTree.file?, get?_set_self (ne_nil_of_get? hplace), file?_of_get?_eq_none hnone]
  · exact file?_congr (get?_set_of_ne hq)

/-- A tree has the directories of another one, and the same files but where a path leads. -/
structure KeepsBut (p : Path) (t u : FileTree) : Prop where
  keeps : Keeps t u
  file? (q : List String) : u.resolve p ≠ .ok q → u.file? q = t.file? q

/-- A tree that keeps all files keeps all but one. -/
theorem Extends.keepsBut (h : Extends t u) : KeepsBut p t u :=
  ⟨h.keeps, fun q _ => h.file? q⟩

/-- The path leads in the last tree where it led before, so both changes are at one place. -/
theorem KeepsBut.trans (htu : KeepsBut p t u) (huv : KeepsBut p u v) : KeepsBut p t v := by
  refine ⟨htu.keeps.trans huv.keeps, fun q hq => ?_⟩
  have hmiddle : u.resolve p ≠ .ok q := fun h => hq (huv.keeps.resolve h)
  rw [huv.file? q hq, htu.file? q hmiddle]

/-- A change at the place where a path leads keeps the files at all others. -/
theorem keepsBut_of_get? (hworking : u.workingDirectory = t.workingDirectory)
    (hresolve : t.resolve p = .ok place) (hplace : t.get? place ≠ some .directory)
    (hother : ∀ q, q ≠ place → u.get? q = t.get? q) : KeepsBut p t u := by
  have hkeeps := keeps_of_get? hworking hplace hother
  refine ⟨hkeeps, fun q hq => file?_congr (hother q ?_)⟩
  rintro rfl
  exact hq (hkeeps.resolve hresolve)

/-- Something new changes no file but where its path leads. -/
theorem keepsBut_of_insertNew (h : t.insertNew p node = .ok u) : KeepsBut p t u := by
  obtain ⟨place, hresolve, hnone, rfl⟩ := insertNew_eq_ok_iff.mp h
  exact keepsBut_of_get? rfl hresolve (by simp [hnone]) fun _ => get?_set_of_ne

/-- Removing a file changes no file but where its path leads. -/
theorem keepsBut_of_remove (h : t.remove p = .ok u) : KeepsBut p t u := by
  obtain ⟨place, contents, mode, hresolve, hfile, rfl⟩ := remove_eq_ok_iff.mp h
  exact keepsBut_of_get? rfl hresolve (by simp [hfile]) fun _ => get?_erase_of_ne

/-- Writing a file changes no file but where its path leads. -/
theorem keepsBut_of_write {contents : Bytes} (h : t.write p contents = .ok u) :
    KeepsBut p t u := by
  obtain ⟨place, old, mode, hresolve, hfile, rfl⟩ := write_eq_ok_iff.mp h
  exact keepsBut_of_get? rfl hresolve (by simp [hfile]) fun _ => get?_set_of_ne

end PeerIdentity.FileTree
