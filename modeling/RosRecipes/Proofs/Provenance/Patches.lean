import RosRecipes.Proofs.Provenance.Repository
import RosRecipes.Proofs.Text.Split

/-!
# Patches are settled

If the answers of outside programs depend on the command only, and the command that writes patches keeps to the
directory that it is told to use (`Runner.Steady`), then the patches of a package are the same in every world, and
nothing is left behind (`settled_extractPatches`).

Patches are written to the temporary directory, which is empty at the start in every world.  The relation that
carries the argument through the commits is `Provenance.Inside`: the worlds agree in the temporary directory, and
each has its own files everywhere else.
-/

namespace RosRecipes

open Action (Coupled Settled)

variable {σ α : Type} {runner : Runner σ}

namespace FileTree

variable {t u : FileTree} {place : Place}

/-- A step that does not lead up stays below. -/
private theorem below_of_step {segment : List Char} (hup : segment ≠ ['.', '.']) {here there : Place}
    (hhere : place <+: here) (h : t.step here segment = .ok there) : place <+: there := by
  rcases step_cases h with ⟨-, rfl⟩ | ⟨-, -, ⟨-, rfl⟩ | ⟨hparent, -⟩ | ⟨-, -, rfl⟩⟩
  · exact hhere
  · exact hhere
  · exact absurd hparent hup
  · exact hhere.trans (List.prefix_append _ _)

/-- Steps from a place stay below it if none leads up, and see nothing else. -/
theorem foldlM_step_below (hagree : AgreeBelow place t u) {segments : List (List Char)}
    (hup : ['.', '.'] ∉ segments) {here : Place} (hhere : place <+: here) :
    segments.foldlM t.step here = segments.foldlM u.step here ∧
      ∀ there, segments.foldlM t.step here = .ok there → place <+: there := by
  induction segments generalizing here with
  | nil =>
    refine ⟨rfl, fun there h => ?_⟩
    cases h
    exact hhere
  | cons segment segments ih =>
    rw [List.mem_cons, not_or] at hup
    have hstep : t.step here segment = u.step here segment := step_congr (hagree here hhere) segment
    rw [List.foldlM_cons, List.foldlM_cons, ← hstep]
    cases hnext : t.step here segment with
    | error e =>
      refine ⟨rfl, fun there h => ?_⟩
      cases h
    | ok next => exact ih hup.2 (below_of_step (Ne.symm hup.1) hhere hnext)

theorem removeFile_of_error {p : Path} {e : FileFault} (h : t.lookup p = .error e) : t.removeFile p = .error e := by
  rw [removeFile, h]
  rfl

theorem removeFile_of_directory {p : Path} (h : t.lookup p = .ok .directory) :
    t.removeFile p = .error .isADirectory := by
  rw [removeFile, h]
  rfl

theorem removeFile_of_file {p : Path} {target : Target} {content : ByteArray} {executable : Bool}
    (h : t.lookup p = .ok (.file content executable)) (hwalk : t.walk p = .ok target) :
    t.removeFile p = .ok { t with entries := t.entries.erase target.place } := by
  rw [removeFile, h, hwalk]
  rfl

end FileTree

open FileTree (OutsideOf AgreeBelow Same)

theorem temporaryDirectory_ne_nil : temporaryDirectory ≠ [] := by decide

/-- A path into the temporary directory. -/
def Path.InTemporary (p : Path) : Prop :=
  ∃ rest : Path, p = temporaryPath.join rest ∧ rest.isAbsolute = false ∧ ['.', '.'] ∉ rest.segments

theorem toList_temporary {rest : Path} (h : rest.isAbsolute = false) :
    (temporaryPath.join rest).text.toList = '/' :: ("patch-series".toList ++ '/' :: rest.text.toList) := by
  have hend : (temporaryPath.isEmpty || temporaryPath.text.toList.getLast? == some '/') = false := by decide +kernel
  unfold Path.join
  rw [h, hend]
  simp [temporaryPath]

theorem segments_temporary {rest : Path} (h : rest.isAbsolute = false) :
    (temporaryPath.join rest).segments = [] :: "patch-series".toList :: rest.segments ∧
      (temporaryPath.join rest).isAbsolute = true := by
  have hname : '/' ∉ "patch-series".toList := by decide +kernel
  constructor
  · unfold Path.segments
    rw [toList_temporary h, Text.split, if_pos rfl, Text.split_append_sep hname]
  · unfold Path.isAbsolute
    rw [toList_temporary h]
    rfl

/-- A path into the temporary directory goes on from there. -/
theorem foldlM_temporary (t : FileTree) {rest : Path} (h : rest.isAbsolute = false) :
    (temporaryPath.join rest).segments.foldlM t.step (t.start (temporaryPath.join rest)) =
      rest.segments.foldlM t.step temporaryDirectory := by
  obtain ⟨hsegments, habsolute⟩ := segments_temporary h
  have hname : t.step [] "patch-series".toList = .ok temporaryDirectory := by
    unfold FileTree.step
    rw [if_neg (by decide +kernel), FileTree.find?_root]
    dsimp only
    rw [if_neg (by decide +kernel), if_neg (by decide +kernel), if_neg (by decide +kernel), String.ofList_toList]
    rfl
  unfold FileTree.start
  rw [hsegments, habsolute, List.foldlM_cons]
  show ("patch-series".toList :: rest.segments).foldlM t.step [] = _
  rw [List.foldlM_cons, hname]
  rfl

/-- A path into the temporary directory sees nothing else. -/
theorem walk_temporary {t u : FileTree} (hagree : AgreeBelow temporaryDirectory t u) {p : Path} (hp : p.InTemporary) :
    t.walk p = u.walk p ∧ ∀ target, t.walk p = .ok target → temporaryDirectory <+: target.place := by
  obtain ⟨rest, rfl, hrel, hup⟩ := hp
  have hbelow := FileTree.foldlM_step_below hagree hup (List.prefix_refl temporaryDirectory)
  constructor
  · refine FileTree.walk_congr ?_
    rw [foldlM_temporary t hrel, foldlM_temporary u hrel, hbelow.1]
  · intro target htarget
    have hplace := FileTree.foldlM_of_walk htarget
    rw [foldlM_temporary t hrel] at hplace
    exact hbelow.2 _ hplace

theorem read_temporary {t u : FileTree} (hagree : AgreeBelow temporaryDirectory t u) {p : Path} (hp : p.InTemporary) :
    t.lookup p = u.lookup p ∧ t.read p = u.read p := by
  obtain ⟨hwalk, hbelow⟩ := walk_temporary hagree hp
  have hlookup : t.lookup p = u.lookup p := by
    cases htarget : t.walk p with
    | error e => rw [FileTree.lookup_of_walk_error htarget, FileTree.lookup_of_walk_error (hwalk ▸ htarget)]
    | ok target =>
      rw [FileTree.lookup_of_walk htarget, FileTree.lookup_of_walk (hwalk ▸ htarget), hagree _ (hbelow target htarget)]
  refine ⟨hlookup, ?_⟩
  unfold FileTree.read
  rw [hlookup]

/-- Removing a file from the temporary directory does the same in trees that agree there. -/
theorem removeFile_temporary {t u : FileTree} (hagree : AgreeBelow temporaryDirectory t u)
    (hdirectory : t.find? temporaryDirectory = some .directory) {p : Path} (hp : p.InTemporary) :
    (∃ e, t.removeFile p = .error e ∧ u.removeFile p = .error e) ∨
    ∃ t' u', t.removeFile p = .ok t' ∧ u.removeFile p = .ok u' ∧
      OutsideOf temporaryDirectory t' t ∧ OutsideOf temporaryDirectory u' u ∧
      AgreeBelow temporaryDirectory t' u' ∧ t'.find? temporaryDirectory = some .directory := by
  obtain ⟨hwalk, hbelow⟩ := walk_temporary hagree hp
  obtain ⟨hlookup, -⟩ := read_temporary hagree hp
  cases hentry : t.lookup p with
  | error e =>
    exact .inl ⟨e, FileTree.removeFile_of_error hentry, FileTree.removeFile_of_error (hlookup ▸ hentry)⟩
  | ok entry =>
    cases entry with
    | directory =>
      exact .inl ⟨.isADirectory, FileTree.removeFile_of_directory hentry,
        FileTree.removeFile_of_directory (hlookup ▸ hentry)⟩
    | file content executable =>
      obtain ⟨target, htarget, -, hfind⟩ := FileTree.lookup_eq_file_iff.1 hentry
      have hne : target.place ≠ [] := by
        intro heq
        rw [heq] at hfind
        cases hfind
      -- The directory itself is no file, so it stays.
      have hother : temporaryDirectory ≠ target.place := by
        intro heq
        rw [← heq, hdirectory] at hfind
        cases hfind
      have houtside : ∀ v : FileTree,
          OutsideOf temporaryDirectory { v with entries := v.entries.erase target.place } v := by
        refine fun v => ⟨rfl, fun q hq => ?_⟩
        rw [FileTree.find?_erase _ hne, if_neg]
        rintro rfl
        exact hq (hbelow target htarget)
      refine .inr ⟨_, _, FileTree.removeFile_of_file hentry htarget,
        FileTree.removeFile_of_file (hlookup ▸ hentry) (hwalk ▸ htarget), houtside t, houtside u, fun q hq => ?_, ?_⟩
      · rw [FileTree.find?_erase _ hne, FileTree.find?_erase _ hne, hagree q hq]
      · rw [FileTree.find?_erase _ hne, if_neg hother, hdirectory]

/-! ### Steady programs -/

/-- The command that writes a commit as a patch into the temporary directory. -/
def patchCommand (r : Repository) (commit : String) : Command :=
  r.question (Repository.patchArguments commit temporaryPath)

/-- The command that writes patches uses the directory that it is told to use, and nothing else: it writes and
reports files only there, and what it does depends on the commit and on what is there. -/
structure Runner.WritesInside (runner : Runner σ) : Prop where
  answer : ∀ r commit s t s' t',
    (runner.run (patchCommand r commit) s t).1 = (runner.run (patchCommand r commit) s' t').1
  outside : ∀ r commit s t, t.find? temporaryDirectory = some .directory →
    OutsideOf temporaryDirectory (runner.run (patchCommand r commit) s t).2.2 t
  inside : ∀ r commit s t s' t', t.find? temporaryDirectory = some .directory →
    AgreeBelow temporaryDirectory t t' →
    AgreeBelow temporaryDirectory (runner.run (patchCommand r commit) s t).2.2
      (runner.run (patchCommand r commit) s' t').2.2
  directory : ∀ r commit s t, t.find? temporaryDirectory = some .directory →
    (runner.run (patchCommand r commit) s t).2.2.find? temporaryDirectory = some .directory
  reported : ∀ r commit s t output file, (runner.run (patchCommand r commit) s t).1 = .ok output →
    r.reportedFile? (Text.trimmed output.stdout) = some file → file.InTemporary

/-- Answers depend on the command only, and no command changes a file, except for patches in the directory that they
are to be written to. -/
structure Runner.Steady (runner : Runner σ) : Prop where
  answer : ∀ c s t s' t', ¬ c.WritesPatch → (runner.run c s t).1 = (runner.run c s' t').1
  leaves : ∀ c s t, ¬ c.WritesPatch → (runner.run c s t).2.2.Same t
  patches : runner.WritesInside

theorem Runner.Steady.answersSettled (h : runner.Steady) (r : Repository) : r.AnswersSettled runner Same :=
  fun _ hplain => .call (fun s t s' t' => h.answer _ s t s' t' hplain) fun s t => h.leaves _ s t hplain

/-- Programs that only answer. -/
def Runner.ofAnswer (answer : Command → Except Error Output) : Runner σ where
  run c s t := (answer c, s, t)

/-- Programs that only answer are steady if none of them says that it has written a patch. -/
theorem Runner.steady_ofAnswer {answer : Command → Except Error Output}
    (h : ∀ r commit, ∃ e, answer (patchCommand r commit) = .error e) : (Runner.ofAnswer answer : Runner σ).Steady where
  answer _ _ _ _ _ _ := rfl
  leaves _ _ t _ := .refl t
  patches :=
    { answer := fun _ _ _ _ _ _ => rfl
      outside := fun _ _ _ t _ => (FileTree.outsideOf_equivalence _).refl t
      inside := fun _ _ _ _ _ _ _ hagree => hagree
      directory := fun _ _ _ _ hdirectory => hdirectory
      reported := fun r commit _ _ output file hok => by
        obtain ⟨e, he⟩ := h r commit
        cases he.symm.trans hok }

/-- No program is installed. -/
def Runner.empty : Runner σ where
  run c s t := (.error (.commandFailed c.line (c.directory.getD ⟨"."⟩) "not started" ""), s, t)

theorem Runner.steady_empty : (Runner.empty : Runner σ).Steady :=
  Runner.steady_ofAnswer fun _ _ => ⟨_, rfl⟩

/-! ### The temporary directory -/

namespace Provenance

/-- The worlds agree in the temporary directory, and outside of it have the files of `u₀` and of `v₀`. -/
structure Inside (u₀ v₀ u v : World σ) : Prop where
  left : u.Near (OutsideOf temporaryDirectory) u₀
  right : v.Near (OutsideOf temporaryDirectory) v₀
  agree : AgreeBelow temporaryDirectory u.files v.files
  directory : u.files.find? temporaryDirectory = some .directory

variable {u₀ v₀ u v : World σ}

theorem Inside.directory_right (h : Inside u₀ v₀ u v) : v.files.find? temporaryDirectory = some .directory := by
  rw [← h.agree _ (List.prefix_refl _), h.directory]

private theorem coupled_call (hp : runner.WritesInside) (r : Repository) (commit : String) :
    Coupled (Inside u₀ v₀) (Action.call runner (patchCommand r commit))
      (Action.call runner (patchCommand r commit)) := by
  intro u v h
  rw [Action.perform_call, Action.perform_call]
  refine ⟨hp.answer _ _ _ _ _ _, ?_, ?_, ?_, ?_⟩
  · exact .trans (FileTree.outsideOf_equivalence _) ⟨rfl, hp.outside _ _ _ _ h.directory⟩ h.left
  · exact .trans (FileTree.outsideOf_equivalence _) ⟨rfl, hp.outside _ _ _ _ h.directory_right⟩ h.right
  · exact hp.inside _ _ _ _ _ _ h.directory h.agree
  · exact hp.directory _ _ _ _ h.directory

private theorem coupled_removeFile {file : Path} (hfile : file.InTemporary) :
    Coupled (Inside u₀ v₀) (Action.changeFiles .file (·.removeFile file))
      (Action.changeFiles .file (·.removeFile file)) := by
  intro u v h
  rw [Action.perform_changeFiles, Action.perform_changeFiles]
  rcases removeFile_temporary h.agree h.directory hfile with
    ⟨e, ht, hu⟩ | ⟨t, u', ht, hu, houtside, houtside', hbelow, hdir⟩
  · rw [ht, hu]
    exact ⟨rfl, h⟩
  · rw [ht, hu]
    refine ⟨rfl, ?_, ?_, hbelow, hdir⟩
    · exact .trans (FileTree.outsideOf_equivalence _) ⟨rfl, houtside⟩ h.left
    · exact .trans (FileTree.outsideOf_equivalence _) ⟨rfl, houtside'⟩ h.right

private theorem yields_formatPatch (hp : runner.WritesInside) (r : Repository) (commit : String) :
    Action.Yields (fun _ => True) (r.formatPatch runner commit temporaryPath) Path.InTemporary := by
  have hask : Action.Yields (fun _ => True) (r.ask runner (Repository.patchArguments commit temporaryPath))
      fun answer => ∀ file, r.reportedFile? answer = some file → file.InTemporary := by
    refine (Action.Yields.call (fun _ _ _ h => h) runner (patchCommand r commit)).bind ?_
    rintro output ⟨s, t, houtput⟩
    exact .pure fun file hfile => hp.reported r commit s t output file houtput hfile
  refine hask.bind fun answer hanswer => ?_
  cases hfile : r.reportedFile? answer with
  | none => exact .throw _
  | some file => exact .pure (hanswer file hfile)

/-- One patch is the same in worlds that agree in the temporary directory. -/
theorem coupled_extractPatch (hp : runner.WritesInside) (r : Repository) (commit : String) :
    Coupled (Inside u₀ v₀) (extractPatch runner r temporaryPath commit)
      (extractPatch runner r temporaryPath commit) := by
  have hformat : Coupled (Inside u₀ v₀) (r.formatPatch runner commit temporaryPath)
      (r.formatPatch runner commit temporaryPath) := by
    refine .bind (.bind (coupled_call hp r commit) fun output => .pure _) fun answer => ?_
    cases r.reportedFile? answer with
    | none => exact .throw _
    | some file => exact .pure file
  refine hformat.bind_of (P := Path.InTemporary) ?_ fun file hfile => ?_
  · intro _ v file _ hv
    exact (yields_formatPatch hp r commit v trivial).2 file hv
  · refine .get fun u v h => ?_
    rw [(read_temporary h.agree hfile).2]
    refine .bind ?_ fun content => ?_
    · cases v.files.read file with
      | error e => exact .throw _
      | ok content => exact .pure content
    · cases file.fileName? with
      | none => exact .throw _
      | some fileName => exact (coupled_removeFile hfile).bind fun _ => .pure _

end Provenance

theorem perform_withTemporaryDirectory (action : Path → Action σ α) (w : World σ) :
    (withTemporaryDirectory action).perform w =
      let cleared : World σ := { w with files := w.files.clear temporaryDirectory }
      let after := ((action temporaryPath).perform cleared).2
      (((action temporaryPath).perform cleared).1,
        { after with files := after.files.restore temporaryDirectory w.files }) := by
  unfold withTemporaryDirectory
  rw [Action.perform_bind_ok (x := w) rfl, Action.perform_bind_ok (x := ⟨⟩) rfl, Action.perform_bind_ok rfl,
    Action.perform_bind_ok (x := ⟨⟩) rfl, Action.perform_ofExcept]
  rfl

/-- What is done alike in empty temporary directories leaves no trace but what it learns. -/
theorem settled_withTemporaryDirectory {action : Path → Action σ α}
    (h : ∀ u₀ v₀, Coupled (Provenance.Inside u₀ v₀) (action temporaryPath) (action temporaryPath)) :
    Settled Same (withTemporaryDirectory action) := by
  intro u v
  have hne := temporaryDirectory_ne_nil
  have hstart : ∀ w w' : World σ, Provenance.Inside w w' { w with files := w.files.clear temporaryDirectory }
      { w' with files := w'.files.clear temporaryDirectory } := by
    refine fun w w' => ⟨⟨rfl, FileTree.outsideOf_clear _ hne⟩, ⟨rfl, FileTree.outsideOf_clear _ hne⟩,
      FileTree.agreeBelow_clear _ _ hne, ?_⟩
    show FileTree.find? _ _ = _
    rw [FileTree.find?_clear _ hne, if_pos rfl]
  rw [perform_withTemporaryDirectory, perform_withTemporaryDirectory]
  obtain ⟨hr, hinside⟩ := h u v _ _ (hstart u v)
  refine ⟨hr, ?_, FileTree.same_restore hne hinside.left.files⟩
  dsimp only
  rw [hinside.left.rest]

/-- The patches of a package are settled. -/
theorem settled_extractPatches {T : FileTree → FileTree → Prop} (hT : Equivalence T)
    (hsame : ∀ t t', Same t t' → T t t') {r : Repository} (h : r.AnswersSettled runner T) (hp : runner.WritesInside)
    (revision : String) : Settled T (extractPatches runner r revision) := by
  refine (Repository.settled_localCommits hT h revision).bind hT fun commits => ?_
  by_cases hcommits : commits.isEmpty = true
  · simp only [hcommits, ↓reduceIte]
    exact .pure hT []
  · simp only [hcommits]
    have hpatches : Settled Same (withTemporaryDirectory fun target => commits.mapM (extractPatch runner r target)) :=
      settled_withTemporaryDirectory fun u₀ v₀ => .mapM (Provenance.coupled_extractPatch hp r) commits
    exact fun u v => ⟨(hpatches u v).1, (hpatches u v).2.mono hsame⟩

end RosRecipes
