import RosRecipes.FileTree

/-!
# What file trees hold

Two trees are the same if the same stands at each place and they have the same working directory
(`FileTree.Same`): everything that is read from them agrees.  The operations are described by what they do to
`find?`.

* `find?_set`, `find?_remove`, `find?_clear` and `find?_restore` are about single places,
* `Same.walk` and `Same.lookup` about paths, `OutsideOf` and `AgreeBelow` about what two trees share.
-/

namespace RosRecipes.FileTree

/-! ### Places -/

private theorem lookup_filter {κ ν : Type} [DecidableEq κ] (p : κ → Bool) (l : List (κ × ν)) (place : κ) :
    (l.filter fun e => p e.1).lookup place = if p place then l.lookup place else none := by
  induction l with
  | nil => simp
  | cons e l ih =>
    obtain ⟨key, entry⟩ := e
    rw [List.filter_cons]
    by_cases hkey : place = key
    · subst hkey
      cases hp : p place <;> simp [hp, ih]
    · have hne : (place == key) = false := by simpa using hkey
      cases p key <;> simp [ih, List.lookup_cons, hne]

@[simp] theorem find?_root (t : FileTree) : t.find? [] = some .directory := rfl

theorem find?_set (t : FileTree) {place : Place} (hplace : place ≠ []) (e : Entry) (q : Place) :
    (t.set place e).find? q = if q = place then some e else t.find? q := by
  by_cases hq : q = []
  · subst hq
    rw [if_neg (Ne.symm hplace)]
    rfl
  · simp only [find?, hq, ↓reduceIte, set, Table.get?_insert]

theorem find?_remove (t : FileTree) {place : Place} (hplace : place ≠ []) (q : Place) :
    (t.remove place).find? q = if place <+: q then none else t.find? q := by
  by_cases hq : q = []
  · subst hq
    rw [if_neg (by simpa using hplace)]
    rfl
  · simp only [find?, hq, ↓reduceIte, remove, Table.get?]
    rw [lookup_filter fun q => !place.isPrefixOf q]
    by_cases hbelow : place <+: q
    · simp [hbelow, List.isPrefixOf_iff_prefix.2 hbelow]
    · simp [hbelow, Bool.eq_false_iff.2 (mt List.isPrefixOf_iff_prefix.1 hbelow)]

theorem find?_clear (t : FileTree) {place : Place} (hplace : place ≠ []) (q : Place) :
    (t.clear place).find? q =
      if q = place then some .directory else if place <+: q then none else t.find? q := by
  rw [clear, find?_set _ hplace, find?_remove _ hplace]

theorem find?_restore (t : FileTree) {place : Place} (hplace : place ≠ []) (other : FileTree) (q : Place) :
    (t.restore place other).find? q = if place <+: q then other.find? q else t.find? q := by
  by_cases hq : q = []
  · subst hq
    rw [if_neg (by simpa using hplace)]
    rfl
  · simp only [find?, hq, ↓reduceIte, restore, remove, Table.get?, List.lookup_append]
    rw [lookup_filter fun q => place.isPrefixOf q, lookup_filter fun q => !place.isPrefixOf q]
    by_cases hbelow : place <+: q
    · simp [hbelow, List.isPrefixOf_iff_prefix.2 hbelow]
    · simp [hbelow, Bool.eq_false_iff.2 (mt List.isPrefixOf_iff_prefix.1 hbelow)]

theorem find?_erase (t : FileTree) {place : Place} (hplace : place ≠ []) (q : Place) :
    ({ t with entries := t.entries.erase place } : FileTree).find? q = if q = place then none else t.find? q := by
  by_cases hq : q = []
  · subst hq
    rw [if_neg (Ne.symm hplace)]
    rfl
  · simp only [find?, hq, ↓reduceIte, Table.get?_erase]

/-! ### The same trees -/

/-- The same stands at each place. -/
structure Same (t u : FileTree) : Prop where
  home : t.home = u.home
  find : ∀ place, t.find? place = u.find? place

variable {t u v : FileTree}

theorem Same.refl (t : FileTree) : t.Same t := ⟨rfl, fun _ => rfl⟩

theorem Same.symm (h : t.Same u) : u.Same t := ⟨h.home.symm, fun place => (h.find place).symm⟩

theorem Same.trans (h : t.Same u) (h' : u.Same v) : t.Same v :=
  ⟨h.home.trans h'.home, fun place => (h.find place).trans (h'.find place)⟩

theorem same_equivalence : Equivalence Same := ⟨Same.refl, Same.symm, Same.trans⟩

/-! ### Walks -/

/-- A step stays where it is, leads up from a directory, or leads to a name in a directory. -/
theorem step_cases {here there : Place} {segment : List Char} (h : t.step here segment = .ok there) :
    segment = [] ∧ there = here ∨
    segment ≠ [] ∧ t.find? here = some .directory ∧
      (segment = ['.'] ∧ there = here ∨ segment = ['.', '.'] ∧ there = here.dropLast ∨
        segment ≠ ['.'] ∧ segment ≠ ['.', '.'] ∧ there = here ++ [.ofList segment]) := by
  unfold step at h
  by_cases hempty : segment = []
  · rw [if_pos hempty] at h
    exact .inl ⟨hempty, (Except.ok.inj h).symm⟩
  rw [if_neg hempty] at h
  split at h
  · cases h
  · cases h
  next hdir =>
  refine .inr ⟨hempty, hdir, ?_⟩
  by_cases hdot : segment = ['.']
  · rw [if_pos hdot] at h
    exact .inl ⟨hdot, (Except.ok.inj h).symm⟩
  rw [if_neg hdot] at h
  by_cases hup : segment = ['.', '.']
  · rw [if_pos hup] at h
    exact .inr (.inl ⟨hup, (Except.ok.inj h).symm⟩)
  rw [if_neg hup] at h
  split at h
  · cases h
  · exact .inr (.inr ⟨hdot, hup, (Except.ok.inj h).symm⟩)

/-- A step is decided by what stands where it starts. -/
theorem step_congr {here : Place} (h : t.find? here = u.find? here) (segment : List Char) :
    t.step here segment = u.step here segment := by
  unfold step
  rw [h]

theorem foldlM_step_cons {here there : Place} {segment : List Char} {segments : List (List Char)}
    (h : (segment :: segments).foldlM t.step here = .ok there) :
    ∃ next, t.step here segment = .ok next ∧ segments.foldlM t.step next = .ok there := by
  rw [List.foldlM_cons] at h
  cases hstep : t.step here segment with
  | error e =>
    rw [hstep] at h
    cases h
  | ok next =>
    rw [hstep] at h
    exact ⟨next, rfl, h⟩

/-- Where the walk along a path starts. -/
def start (t : FileTree) (p : Path) : Place := if p.isAbsolute then [] else t.home

/-- A walk is decided by its steps. -/
theorem walk_congr {p : Path} (h : p.segments.foldlM t.step (t.start p) = p.segments.foldlM u.step (u.start p)) :
    t.walk p = u.walk p := by
  unfold start at h
  unfold FileTree.walk
  rw [h]

theorem foldlM_of_walk {p : Path} {target : Target} (h : t.walk p = .ok target) :
    p.segments.foldlM t.step (t.start p) = .ok target.place := by
  unfold FileTree.walk at h
  split at h
  · cases h
  split at h
  · cases h
  split at h
  · cases h
  unfold start
  cases hplace : p.segments.foldlM t.step (if p.isAbsolute then [] else t.home) with
  | error e =>
    rw [hplace] at h
    cases h
  | ok place =>
    rw [hplace] at h
    cases h
    rfl

theorem lookup_of_walk {p : Path} {target : Target} (h : t.walk p = .ok target) :
    t.lookup p =
      match t.find? target.place with
      | none => .error .notFound
      | some .directory => .ok .directory
      | some (.file content executable) =>
        if target.directoryOnly then .error .notADirectory else .ok (.file content executable) := by
  unfold FileTree.lookup
  rw [h]
  rfl

theorem lookup_of_walk_error {p : Path} {e : FileFault} (h : t.walk p = .error e) : t.lookup p = .error e := by
  unfold FileTree.lookup
  rw [h]
  rfl

/-- A file is found at the end of a walk. -/
theorem lookup_eq_file_iff {p : Path} {content : ByteArray} {executable : Bool} :
    t.lookup p = .ok (.file content executable) ↔
      ∃ target, t.walk p = .ok target ∧ target.directoryOnly = false ∧
        t.find? target.place = some (.file content executable) := by
  cases hwalk : t.walk p with
  | error e => simp [lookup_of_walk_error hwalk]
  | ok target =>
    rw [lookup_of_walk hwalk]
    rcases hfind : t.find? target.place with _ | _ | _
    · simp [hfind]
    · cases hdir : target.directoryOnly <;> simp [hfind, hdir]
    · simp [hfind]

theorem read_eq_ok_iff {p : Path} {content : ByteArray} :
    t.read p = .ok content ↔ ∃ executable, t.lookup p = .ok (.file content executable) := by
  unfold FileTree.read
  cases hlookup : t.lookup p with
  | error e => exact ⟨nofun, nofun⟩
  | ok entry =>
    cases entry with
    | directory => exact ⟨nofun, nofun⟩
    | file found executable =>
      constructor
      · intro h
        cases h
        exact ⟨executable, rfl⟩
      · rintro ⟨executable', h⟩
        cases h
        rfl

theorem isFile_iff {p : Path} : t.isFile p = true ↔ ∃ content, t.read p = .ok content := by
  simp only [read_eq_ok_iff]
  unfold FileTree.isFile
  cases hlookup : t.lookup p with
  | error e => exact ⟨nofun, nofun⟩
  | ok entry =>
    cases entry with
    | directory => exact ⟨nofun, nofun⟩
    | file content executable => exact ⟨fun _ => ⟨content, executable, rfl⟩, fun _ => rfl⟩

theorem isDirectory_iff {p : Path} :
    t.isDirectory p = true ↔ ∃ target, t.walk p = .ok target ∧ t.find? target.place = some .directory := by
  unfold isDirectory
  cases hwalk : t.walk p with
  | error e => simp [lookup_of_walk_error hwalk]
  | ok target =>
    rw [lookup_of_walk hwalk]
    rcases hfind : t.find? target.place with _ | _ | _
    · simp [hfind]
    · cases hdir : target.directoryOnly <;> simp [hfind]
    · simp [hfind]

/-- A path to a file can be followed to the file. -/
theorem walk_of_isFile {p : Path} (h : t.isFile p = true) : ∃ target content executable,
    t.walk p = .ok target ∧ target.directoryOnly = false ∧ t.find? target.place = some (.file content executable) := by
  obtain ⟨content, hread⟩ := isFile_iff.1 h
  obtain ⟨executable, hlookup⟩ := read_eq_ok_iff.1 hread
  obtain ⟨target, htarget⟩ := lookup_eq_file_iff.1 hlookup
  exact ⟨target, content, executable, htarget⟩

theorem read_of_walk {p : Path} {target : Target} {content : ByteArray} {executable : Bool}
    (hwalk : t.walk p = .ok target) (hdir : target.directoryOnly = false)
    (hfind : t.find? target.place = some (.file content executable)) : t.read p = .ok content :=
  read_eq_ok_iff.2 ⟨executable, lookup_eq_file_iff.2 ⟨target, hwalk, hdir, hfind⟩⟩

theorem Same.walk (h : t.Same u) (p : Path) : t.walk p = u.walk p := by
  have hstep : t.step = u.step := by
    funext here segment
    exact step_congr (h.find here) segment
  refine walk_congr ?_
  unfold start
  rw [hstep, h.home]

theorem Same.lookup (h : t.Same u) (p : Path) : t.lookup p = u.lookup p := by
  unfold FileTree.lookup
  rw [h.walk p]
  simp only [h.find]

theorem Same.read (h : t.Same u) (p : Path) : t.read p = u.read p := by
  unfold FileTree.read
  rw [h.lookup p]

theorem Same.readText (h : t.Same u) (p : Path) : t.readText p = u.readText p := by
  unfold FileTree.readText
  rw [h.read p]

theorem Same.isFile (h : t.Same u) (p : Path) : t.isFile p = u.isFile p := by
  unfold FileTree.isFile
  rw [h.lookup p]

/-! ### Parts of trees -/

/-- The trees differ at most at a place and below it. -/
structure OutsideOf (place : Place) (t u : FileTree) : Prop where
  home : t.home = u.home
  find : ∀ q, ¬ place <+: q → t.find? q = u.find? q

/-- The same stands at a place and everywhere below it. -/
def AgreeBelow (place : Place) (t u : FileTree) : Prop := ∀ q, place <+: q → t.find? q = u.find? q

theorem outsideOf_equivalence (place : Place) : Equivalence (OutsideOf place) where
  refl _ := ⟨rfl, fun _ _ => rfl⟩
  symm h := ⟨h.home.symm, fun q hq => (h.find q hq).symm⟩
  trans h h' := ⟨h.home.trans h'.home, fun q hq => (h.find q hq).trans (h'.find q hq)⟩

/-- A cleared place hides what was there. -/
theorem outsideOf_clear (t : FileTree) {place : Place} (hplace : place ≠ []) : OutsideOf place (t.clear place) t := by
  refine ⟨rfl, fun q hq => ?_⟩
  have hne : q ≠ place := by
    rintro rfl
    exact hq (List.prefix_refl q)
  rw [find?_clear _ hplace, if_neg hne, if_neg hq]

theorem agreeBelow_clear (t u : FileTree) {place : Place} (hplace : place ≠ []) :
    AgreeBelow place (t.clear place) (u.clear place) := by
  intro q hq
  rw [find?_clear _ hplace, find?_clear _ hplace, if_pos hq, if_pos hq]

/-- What was hidden comes back. -/
theorem same_restore {place : Place} (hplace : place ≠ []) (h : OutsideOf place u t) : (u.restore place t).Same t := by
  refine ⟨h.home, fun q => ?_⟩
  rw [find?_restore _ hplace]
  by_cases hq : place <+: q
  · rw [if_pos hq]
  · rw [if_neg hq, h.find q hq]

end RosRecipes.FileTree
