import RosRecipes.Proofs.Generation.Emission

/-!
# The record of emissions

Several emissions of a run may go to one file, perhaps by different paths (`FileTree.sameFile`).  Then the last of them
decides its content (`lastContent?`).  A record is true to a tree if each file that was emitted has that content
(`Recorded`); writing one more file and noting it keeps that (`Recorded.write`).

* `superseded` lists the emissions that do not have the last word about their file.
-/

namespace RosRecipes

open FileTree (Same Grows Extends Wrote)

variable {t u : FileTree} {p q : Path} {emitted : List Emission}

/-! ### Paths to one file -/

/-- Do the paths lead to one file? -/
def FileTree.sameFile (t : FileTree) (p q : Path) : Bool :=
  match t.walk p, t.walk q with
  | .ok a, .ok b => t.isFile p && t.isFile q && decide (a.place = b.place)
  | _, _ => false

namespace FileTree

theorem sameFile_iff : t.sameFile p q = true ↔
    ∃ a b, t.walk p = .ok a ∧ t.walk q = .ok b ∧ t.isFile p = true ∧ t.isFile q = true ∧ a.place = b.place := by
  unfold sameFile
  cases t.walk p with
  | error e => simp
  | ok a =>
    cases t.walk q with
    | error e => simp
    | ok b => simp [and_assoc]

theorem sameFile_comm (t : FileTree) (p q : Path) : t.sameFile p q = t.sameFile q p := by
  rw [Bool.eq_iff_iff, sameFile_iff, sameFile_iff]
  constructor
  · rintro ⟨a, b, hp, hq, hfile, hfile', hplace⟩
    exact ⟨b, a, hq, hp, hfile', hfile, hplace.symm⟩
  · rintro ⟨a, b, hq, hp, hfile', hfile, hplace⟩
    exact ⟨b, a, hp, hq, hfile, hfile', hplace.symm⟩

theorem sameFile_self (h : t.isFile p = true) : t.sameFile p p = true := by
  obtain ⟨target, _, _, hwalk, -, -⟩ := walk_of_isFile h
  exact sameFile_iff.2 ⟨target, target, hwalk, hwalk, h, h, rfl⟩

theorem Same.sameFile (h : t.Same u) (p q : Path) : t.sameFile p q = u.sameFile p q := by
  unfold FileTree.sameFile
  rw [h.walk, h.walk, h.isFile, h.isFile]

/-- Files that are one stay one, and files that are not do not become one. -/
theorem Grows.sameFile (h : t.Grows u) (hp : t.isFile p = true) (hq : t.isFile q = true) :
    u.sameFile p q = t.sameFile p q := by
  obtain ⟨a, _, _, ha, -, -⟩ := walk_of_isFile hp
  obtain ⟨b, _, _, hb, -, -⟩ := walk_of_isFile hq
  unfold FileTree.sameFile
  rw [ha, hb, h.walk ha, h.walk hb, hp, hq, h.isFile hp, h.isFile hq]

/-- What is read by one path to a file is read by the others. -/
theorem read_of_sameFile (h : t.sameFile p q = true) : t.read p = t.read q := by
  obtain ⟨a, b, ha, hb, hp, hq, hplace⟩ := sameFile_iff.1 h
  obtain ⟨a', content, executable, ha', hdir, hfind⟩ := walk_of_isFile hp
  obtain ⟨b', _, _, hb', hdir', -⟩ := walk_of_isFile hq
  obtain rfl := Except.ok.inj (ha.symm.trans ha')
  obtain rfl := Except.ok.inj (hb.symm.trans hb')
  rw [read_of_walk ha hdir hfind, read_of_walk hb hdir' (hplace ▸ hfind)]

end FileTree

/-- A file that nothing is emitted to keeps its content. -/
theorem World.Later.read {σ : Type} {w w' : World σ} (h : w.Later w') (hfile : w.files.isFile p = true)
    (hfree : ∀ e ∈ w'.emitted, w'.files.sameFile e.path p = false) : w.files.read p = w'.files.read p := by
  obtain ⟨target, content, executable, hwalk, hdir, hfind⟩ := FileTree.walk_of_isFile hfile
  have hwalk' := h.files.walk hwalk
  rcases h.kept _ _ _ hfind with hkept | ⟨e, he, hemitted, target', htarget, hplace⟩
  · rw [FileTree.read_of_walk hwalk hdir hfind, FileTree.read_of_walk hwalk' hdir hkept]
  · have hshared := FileTree.sameFile_iff.2 ⟨target', target, htarget, hwalk', hemitted, h.files.isFile hfile, hplace⟩
    rw [hfree e he] at hshared
    cases hshared

/-! ### The last word about a file -/

/-- The content of the last emission to the file that a path leads to. -/
def lastContent? (t : FileTree) (emitted : List Emission) (p : Path) : Option ByteArray :=
  (emitted.filter fun e => t.sameFile e.path p).getLast?.map (·.content)

/-- The emissions whose content differs from that of the last emission to the same file. -/
def superseded (t : FileTree) (emitted : List Emission) : List Path :=
  (emitted.filter fun e => decide (lastContent? t emitted e.path ≠ some e.content)).map (·.path)

/-- Each file that was emitted has the content of the last emission to it. -/
def Recorded (t : FileTree) (emitted : List Emission) : Prop :=
  ∀ e ∈ emitted, ∃ content, t.read e.path = .ok content ∧ lastContent? t emitted e.path = some content

theorem Recorded.same (h : Recorded t emitted) (hsame : u.Same t) : Recorded u emitted := by
  intro e he
  obtain ⟨content, hread, hlast⟩ := h e he
  refine ⟨content, by rw [hsame.read, hread], ?_⟩
  unfold lastContent?
  simp only [hsame.sameFile]
  exact hlast

/-- An emission has the last word if no later one goes to its file. -/
theorem lastContent?_of_later {before after : List Emission} {e : Emission} (hself : t.sameFile e.path p = true)
    (hlater : ∀ e' ∈ after, t.sameFile e'.path p = false) :
    lastContent? t (before ++ e :: after) p = some e.content := by
  have hrest : after.filter (fun e' => t.sameFile e'.path p) = [] := by
    refine List.filter_eq_nil_iff.2 fun e' he' => ?_
    rw [hlater e' he']
    exact Bool.false_ne_true
  unfold lastContent?
  rw [List.filter_append, List.filter_cons, if_pos hself, hrest, List.getLast?_concat]
  rfl

theorem lastContent?_concat_of_sameFile {e : Emission} (h : t.sameFile e.path p = true) :
    lastContent? t (emitted ++ [e]) p = some e.content := lastContent?_of_later h nofun

theorem lastContent?_concat_of_ne {e : Emission} (h : t.sameFile e.path p = false) :
    lastContent? t (emitted ++ [e]) p = lastContent? t emitted p := by
  unfold lastContent?
  simp [h]

theorem Recorded.isFile (h : Recorded t emitted) {e : Emission} (he : e ∈ emitted) : t.isFile e.path = true := by
  obtain ⟨content, hread, -⟩ := h e he
  exact FileTree.isFile_iff.2 ⟨content, hread⟩

/-- One more file is written and noted. -/
theorem Recorded.write {content : ByteArray} (h : Recorded t emitted) (hwrote : Wrote p content t u)
    (refused : Bool) : Recorded u (emitted ++ [⟨p, content, refused⟩]) := by
  have hread : u.read p = .ok content := FileTree.read_eq_ok_iff.2 hwrote.file
  have hfile : u.isFile p = true := FileTree.isFile_iff.2 ⟨content, hread⟩
  intro e he
  rcases List.mem_append.1 he with he | he
  · by_cases hsame : u.sameFile p e.path = true
    · refine ⟨content, ?_, lastContent?_concat_of_sameFile hsame⟩
      rw [← FileTree.read_of_sameFile hsame, hread]
    · obtain ⟨found, hfound, hlast⟩ := h e he
      obtain ⟨target, found', executable, hwalk, hdir, hfind⟩ := FileTree.walk_of_isFile (h.isFile he)
      have heq : found = found' := Except.ok.inj (hfound.symm.trans (FileTree.read_of_walk hwalk hdir hfind))
      subst heq
      refine ⟨found, ?_, ?_⟩
      · rcases hwrote.others _ _ _ hfind with hkept | ⟨target', hwalk', hplace⟩
        · exact FileTree.read_of_walk (hwrote.grows.walk hwalk) hdir hkept
        · refine absurd (FileTree.sameFile_iff.2 ?_) hsame
          exact ⟨target', target, hwalk', hwrote.grows.walk hwalk, hfile, hwrote.grows.isFile (h.isFile he), hplace⟩
      · rw [lastContent?_concat_of_ne (by simpa using hsame), ← hlast]
        unfold lastContent?
        rw [List.filter_congr fun e' he' => hwrote.grows.sameFile (h.isFile he') (h.isFile he)]
  · obtain rfl := List.mem_singleton.1 he
    exact ⟨content, hread, lastContent?_concat_of_sameFile (FileTree.sameFile_self hfile)⟩

/-- Where something was only added, the record stays true. -/
theorem Recorded.extends (h : Recorded t emitted) (hextends : t.Extends u) : Recorded u emitted := by
  intro e he
  obtain ⟨content, hread, hlast⟩ := h e he
  obtain ⟨target, found, executable, hwalk, hdir, hfind⟩ := FileTree.walk_of_isFile (h.isFile he)
  have heq : content = found := Except.ok.inj (hread.symm.trans (FileTree.read_of_walk hwalk hdir hfind))
  subst heq
  refine ⟨content, FileTree.read_of_walk (hextends.grows.walk hwalk) hdir (hextends.find _ _ hfind), ?_⟩
  rw [← hlast]
  unfold lastContent?
  rw [List.filter_congr fun e' he' => hextends.grows.sameFile (h.isFile he') (h.isFile he)]

/-- A file has some content just if that is the last that was emitted to it. -/
theorem Recorded.read_iff (h : Recorded t emitted) {e : Emission} (he : e ∈ emitted) {content : ByteArray} :
    t.read e.path = .ok content ↔ lastContent? t emitted e.path = some content := by
  obtain ⟨found, hread, hlast⟩ := h e he
  rw [hread, hlast, Except.ok.injEq, Option.some.injEq]

/-- If no two emissions go to one file, each has the last word. -/
theorem Recorded.lastContent?_of_pairwise (h : Recorded t emitted)
    (hdistinct : emitted.Pairwise fun e e' => t.sameFile e.path e'.path = false) {e : Emission} (he : e ∈ emitted) :
    lastContent? t emitted e.path = some e.content := by
  have hself := FileTree.sameFile_self (h.isFile he)
  obtain ⟨before, after, rfl⟩ := List.append_of_mem he
  obtain ⟨-, hafter, -⟩ := List.pairwise_append.1 hdistinct
  refine lastContent?_of_later hself fun e' he' => ?_
  rw [FileTree.sameFile_comm, (List.pairwise_cons.1 hafter).1 e' he']

theorem superseded_eq_nil (h : Recorded t emitted)
    (hdistinct : emitted.Pairwise fun e e' => t.sameFile e.path e'.path = false) : superseded t emitted = [] := by
  unfold superseded
  rw [List.filter_eq_nil_iff.2, List.map_nil]
  intro e he
  simp [h.lastContent?_of_pairwise hdistinct he]

end RosRecipes
