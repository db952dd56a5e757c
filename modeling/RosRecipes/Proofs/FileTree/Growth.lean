import RosRecipes.Proofs.FileTree.Basic

/-!
# Growing trees

Writing files and creating directories takes nothing away: directories stay, and files stay files
(`FileTree.Grows`).  So a path that could be followed leads to the same place later (`Grows.walk`).

* `extends_of_makeDirectories`: creating directories leaves everything else as it is.
* `wrote_of_write`: writing a file changes that file only.
-/

namespace RosRecipes.FileTree

variable {t u v : FileTree} {p : Path}

/-! ### Growth -/

/-- `u` has every directory of `t`, and every file, perhaps with another content. -/
structure Grows (t u : FileTree) : Prop where
  home : t.home = u.home
  directory : ∀ place, t.find? place = some .directory → u.find? place = some .directory
  file : ∀ place content executable, t.find? place = some (.file content executable) →
    ∃ content' executable', u.find? place = some (.file content' executable')

theorem Grows.trans (h : t.Grows u) (h' : u.Grows v) : t.Grows v := by
  refine ⟨h.home.trans h'.home, fun place hdir => h'.directory place (h.directory place hdir), ?_⟩
  intro place content executable hfile
  obtain ⟨content', executable', hfile'⟩ := h.file place content executable hfile
  exact h'.file place content' executable' hfile'

theorem Same.grows (h : t.Same u) : t.Grows u := by
  refine ⟨h.home, fun place hdir => ?_, fun place content executable hfile => ⟨content, executable, ?_⟩⟩
  · rw [← h.find, hdir]
  · rw [← h.find, hfile]

private theorem step_of_grows (h : t.Grows u) {here there : Place} {segment : List Char}
    (hstep : t.step here segment = .ok there) : u.step here segment = .ok there := by
  rcases step_cases hstep with ⟨rfl, rfl⟩ | ⟨-, hdir, -⟩
  · rfl
  · rw [← hstep]
    exact step_congr ((h.directory here hdir).trans hdir.symm) segment

theorem foldlM_of_grows (h : t.Grows u) {segments : List (List Char)} {here there : Place}
    (hsteps : segments.foldlM t.step here = .ok there) : segments.foldlM u.step here = .ok there := by
  induction segments generalizing here with
  | nil => exact hsteps
  | cons segment segments ih =>
    obtain ⟨next, hstep, hrest⟩ := foldlM_step_cons hsteps
    rw [List.foldlM_cons, step_of_grows h hstep]
    exact ih hrest

/-- A path that can be followed leads to the same place in a tree that has grown. -/
theorem Grows.walk (h : t.Grows u) {target : Target} (hwalk : t.walk p = .ok target) : u.walk p = .ok target := by
  have hsteps := foldlM_of_walk hwalk
  rw [← hwalk]
  refine walk_congr ?_
  have hstart : u.start p = t.start p := by
    unfold start
    rw [h.home]
  rw [hsteps, hstart]
  exact foldlM_of_grows h hsteps

theorem Grows.isFile (h : t.Grows u) (hfile : t.isFile p) : u.isFile p := by
  unfold FileTree.isFile at hfile ⊢
  split at hfile
  · next content executable hlookup =>
    obtain ⟨target, hwalk, hdir, hfind⟩ := lookup_eq_file_iff.1 hlookup
    obtain ⟨content', executable', hfind'⟩ := h.file _ _ _ hfind
    rw [lookup_eq_file_iff.2 ⟨target, h.walk hwalk, hdir, hfind'⟩]
  · cases hfile

/-! ### Directories -/

/-- `u` has all that `t` has. -/
structure Extends (t u : FileTree) : Prop where
  home : t.home = u.home
  find : ∀ place e, t.find? place = some e → u.find? place = some e

theorem Extends.refl (t : FileTree) : t.Extends t := ⟨rfl, fun _ _ h => h⟩

theorem Extends.trans (h : t.Extends u) (h' : u.Extends v) : t.Extends v :=
  ⟨h.home.trans h'.home, fun place e he => h'.find place e (h.find place e he)⟩

theorem Extends.grows (h : t.Extends u) : t.Grows u :=
  ⟨h.home, fun place hdir => h.find place _ hdir, fun place content executable hfile =>
    ⟨content, executable, h.find place _ hfile⟩⟩

/-- A directory is created only where nothing is. -/
theorem set_of_makeDirectory (h : t.makeDirectory p = .ok u) :
    ∃ target, t.walk p = .ok target ∧ t.find? target.place = none ∧ u = t.set target.place .directory := by
  unfold makeDirectory at h
  cases hwalk : t.walk p with
  | error e =>
    rw [hwalk] at h
    cases h
  | ok target =>
    simp only [hwalk, Bind.bind, Except.bind] at h
    split at h
    · cases h
    split at h
    · cases h
    · next hnone =>
      split at h
      · cases h
        exact ⟨target, rfl, hnone, rfl⟩
      · cases h
      · cases h

theorem ne_nil_of_find? {place : Place} (h : t.find? place ≠ some .directory) : place ≠ [] := by
  rintro rfl
  exact h rfl

theorem extends_of_makeDirectory (h : t.makeDirectory p = .ok u) : t.Extends u := by
  obtain ⟨target, -, hnone, rfl⟩ := set_of_makeDirectory h
  have hne : target.place ≠ [] := by
    intro heq
    rw [heq] at hnone
    cases hnone
  refine ⟨rfl, fun place e he => ?_⟩
  rw [find?_set _ hne, if_neg]
  · exact he
  · rintro rfl
    rw [hnone] at he
    cases he

theorem extends_of_makeDirectoriesFrom {fuel : Nat} (h : t.makeDirectoriesFrom p fuel = .ok u) : t.Extends u := by
  induction fuel generalizing t u p with
  | zero => cases h
  | succ fuel ih =>
    unfold makeDirectoriesFrom at h
    split at h
    · cases h
      exact .refl t
    dsimp only at h
    split at h
    · next hmake =>
      cases h
      exact extends_of_makeDirectory hmake
    · split at h
      · cases h
      · next above _ =>
        cases hrec : t.makeDirectoriesFrom above fuel with
        | error e =>
          rw [hrec] at h
          cases h
        | ok mid =>
          have hmid := ih hrec
          simp only [hrec, Except.bind] at h
          split at h
          · next hmake =>
            cases h
            exact hmid.trans (extends_of_makeDirectory hmake)
          · split at h
            · cases h
              exact hmid
            · cases h
    · split at h
      · cases h
        exact .refl t
      · cases h

/-- Creating directories takes nothing away. -/
theorem extends_of_makeDirectories (h : t.makeDirectories p = .ok u) : t.Extends u :=
  extends_of_makeDirectoriesFrom h

/-! ### Files -/

/-- `u` is `t` after the content of one file was set. -/
structure Wrote (p : Path) (content : ByteArray) (t u : FileTree) : Prop where
  grows : t.Grows u
  /-- The path leads to the file. -/
  file : ∃ executable, u.lookup p = .ok (.file content executable)
  /-- All other files are what they were. -/
  others : ∀ place c executable, t.find? place = some (.file c executable) →
    u.find? place = some (.file c executable) ∨ ∃ target, u.walk p = .ok target ∧ target.place = place

/-- A file is written only where no directory is, and keeps its permissions. -/
theorem set_of_write {content : ByteArray} (h : t.write p content = .ok u) :
    ∃ target executable, t.walk p = .ok target ∧ target.directoryOnly = false ∧
      t.find? target.place ≠ some .directory ∧ u = t.set target.place (.file content executable) := by
  unfold write at h
  cases hwalk : t.walk p with
  | error e =>
    rw [hwalk] at h
    cases h
  | ok target =>
    simp only [hwalk, Bind.bind, Except.bind] at h
    split at h
    · cases h
    · next hdir =>
      replace hdir : target.directoryOnly = false := by simpa using hdir
      split at h
      · cases h
      · next executable hfile =>
        cases h
        exact ⟨target, executable, rfl, hdir, by simp [hfile], rfl⟩
      · next hnone =>
        split at h
        · cases h
          exact ⟨target, false, rfl, hdir, by simp [hnone], rfl⟩
        · cases h
        · cases h

theorem grows_set {place : Place} {content : ByteArray} {executable : Bool} (h : t.find? place ≠ some .directory) :
    t.Grows (t.set place (.file content executable)) := by
  have hne := ne_nil_of_find? h
  refine ⟨rfl, fun other hother => ?_, fun other c x hother => ?_⟩
  · rw [find?_set _ hne, if_neg]
    · exact hother
    · rintro rfl
      exact h hother
  · by_cases heq : other = place
    · exact ⟨content, executable, by rw [find?_set _ hne, if_pos heq]⟩
    · exact ⟨c, x, by rw [find?_set _ hne, if_neg heq, hother]⟩

theorem wrote_of_write {content : ByteArray} (h : t.write p content = .ok u) : Wrote p content t u := by
  obtain ⟨target, executable, hwalk, hdir, hfree, rfl⟩ := set_of_write h
  have hne := ne_nil_of_find? hfree
  have hgrows : t.Grows (t.set target.place (.file content executable)) := grows_set hfree
  refine ⟨hgrows, ⟨executable, ?_⟩, fun place c x hplace => ?_⟩
  · refine lookup_eq_file_iff.2 ⟨target, hgrows.walk hwalk, hdir, ?_⟩
    rw [find?_set _ hne, if_pos rfl]
  · by_cases heq : place = target.place
    · exact .inr ⟨target, hgrows.walk hwalk, heq.symm⟩
    · exact .inl (by rw [find?_set _ hne, if_neg heq, hplace])

theorem Extends.wrote {content : ByteArray} (h : t.Extends u) (h' : Wrote p content u v) : Wrote p content t v :=
  ⟨h.grows.trans h'.grows, h'.file, fun place c x hplace => h'.others place c x (h.find place _ hplace)⟩

end RosRecipes.FileTree
