import RosRecipes.Proofs.FileTree.Rewriting
import RosRecipes.Proofs.Provenance.Patches
import RosRecipes.Proofs.Provenance.Questions

/-!
# Commits become patches

If git writes each commit as a file into the temporary directory, then the patches that are taken out of it are those
of the commits, in their order (`gives_patches`).  Files of different commits may have the same name: the directory is
empty again before the next one is written.
-/

namespace RosRecipes

open Action (Gives)
open FileTree (AgreeBelow)
open Text (IsLine unlines)

variable {σ : Type} {runner : Runner σ} {r : Repository}

/-- A name that a file can have in any directory, and that can be reported in a line. -/
structure IsFileName (name : String) : Prop where
  isLine : IsLine name.toList
  single : '/' ∉ name.toList
  nonzero : '\x00' ∉ name.toList
  notHere : name.toList ≠ ['.']
  notUp : name.toList ≠ ['.', '.']
  short : Text.byteLength name.toList ≤ 255

instance (name : String) : Decidable (IsFileName name) :=
  decidable_of_iff (IsLine name.toList ∧ '/' ∉ name.toList ∧ '\x00' ∉ name.toList ∧ name.toList ≠ ['.'] ∧
      name.toList ≠ ['.', '.'] ∧ Text.byteLength name.toList ≤ 255)
    ⟨fun ⟨isLine, single, nonzero, notHere, notUp, short⟩ => ⟨isLine, single, nonzero, notHere, notUp, short⟩,
      fun ⟨isLine, single, nonzero, notHere, notUp, short⟩ => ⟨isLine, single, nonzero, notHere, notUp, short⟩⟩

/-! ### Paths into the temporary directory -/

section

variable {name : String} (h : IsFileName name)

include h

private theorem isAbsolute_name : Path.isAbsolute ⟨name⟩ = false := by
  obtain ⟨c, rest, hname⟩ := List.exists_cons_of_ne_nil h.isLine.ne_nil
  have hc : c ≠ '/' := by
    rintro rfl
    exact h.single (hname ▸ List.mem_cons_self)
  simpa [Path.isAbsolute, hname] using hc

private theorem segments_name : Path.segments ⟨name⟩ = [name.toList] := Text.split_of_not_mem h.single

private theorem toList_temporaryFile :
    (temporaryPath / name).text.toList = "/patch-series/".toList ++ name.toList := by
  refine (toList_temporary (isAbsolute_name h)).trans ?_
  have hlead : "/patch-series/".toList = '/' :: ("patch-series".toList ++ ['/']) := by decide +kernel
  rw [hlead, List.cons_append, List.append_assoc]
  rfl

private theorem segments_temporaryFile :
    (temporaryPath / name).segments = [[], "patch-series".toList, name.toList] := by
  rw [← segments_name h]
  exact (segments_temporary (isAbsolute_name h)).1

/-- The path leads to the name in the temporary directory. -/
theorem walk_temporaryFile {t : FileTree} (hdirectory : t.find? temporaryDirectory = some .directory) :
    t.walk (temporaryPath / name) = .ok ⟨temporaryDirectory ++ [name], false, true⟩ := by
  have hstep : t.step temporaryDirectory name.toList = .ok (temporaryDirectory ++ [name]) := by
    unfold FileTree.step
    rw [if_neg h.isLine.ne_nil, hdirectory]
    dsimp only
    rw [if_neg h.notHere, if_neg h.notUp, if_neg (Nat.not_lt.2 h.short), String.ofList_toList]
  have hsteps : (temporaryPath / name).segments.foldlM t.step (t.start (temporaryPath / name)) =
      .ok (temporaryDirectory ++ [name]) := by
    refine (foldlM_temporary t (isAbsolute_name h)).trans ?_
    rw [segments_name h, List.foldlM_cons, hstep]
    rfl
  have hzero : '\x00' ∉ (temporaryPath / name).text.toList := by
    rw [toList_temporaryFile h, List.mem_append, not_or]
    exact ⟨by decide +kernel, h.nonzero⟩
  have hempty : (temporaryPath / name).isEmpty = false := by
    rw [Path.isEmpty, String.isEmpty_eq_false_iff]
    intro heq
    have htext := toList_temporaryFile h
    rw [heq] at htext
    simp at htext
  have hshort : ¬ 4095 < Text.byteLength (temporaryPath / name).text.toList := by
    have hlead : Text.byteLength "/patch-series/".toList = 14 := by decide +kernel
    have hname := h.short
    rw [toList_temporaryFile h, Text.byteLength_append, hlead]
    omega
  unfold FileTree.start at hsteps
  rw [FileTree.walk, if_neg hzero, hempty, if_neg (by decide), if_neg hshort, hsteps, segments_temporaryFile h]
  have hend : ∀ last : List Char, last ≠ [] → last ≠ ['.'] → last ≠ ['.', '.'] →
      ([[], "patch-series".toList, last].getLast? == some []) = false ∧
        (([[], "patch-series".toList, last].filter (· ≠ [])).getLast?.any fun s =>
          s ≠ ['.'] && s ≠ ['.', '.']) = true := by
    intro last hne hhere hup
    simp [hne, hhere, hup]
  obtain ⟨hdirectoryOnly, hnamed⟩ := hend _ h.isLine.ne_nil h.notHere h.notUp
  show Except.ok (FileTree.Target.mk _ _ _) = _
  rw [hdirectoryOnly, hnamed]

theorem fileName?_temporaryFile : (temporaryPath / name).fileName? = some name := by
  have hidle : Path.isIdle name.toList = false := by
    simp [Path.isIdle, h.isLine.ne_nil, h.notHere]
  have hcomponent : Path.componentOf? name.toList = some (.name name) := by
    rw [Path.componentOf?, hidle, if_neg (by decide), if_neg h.notUp, String.ofList_toList]
  unfold Path.fileName? Path.components Path.anchor
  rw [segments_temporaryFile h]
  have hdirectory : Path.componentOf? "patch-series".toList = some (.name "patch-series") := by decide +kernel
  simp only [List.filterMap_cons, hcomponent, hdirectory]
  rfl

/-- Git reports the file in a line of its own. -/
theorem reportedFile?_temporaryFile (r : Repository) :
    r.reportedFile? (Text.trimmed (unlines [(temporaryPath / name).text])) = some (temporaryPath / name) := by
  have hline : IsLine (temporaryPath / name).text.toList := by
    have hlead : "/patch-series/".toList = '/' :: "patch-series/".toList := by decide +kernel
    obtain ⟨c, hc⟩ := Option.isSome_iff_exists.1 (Option.isSome_of_any h.isLine.stop)
    rw [toList_temporaryFile h]
    refine ⟨?_, ?_, ?_⟩
    · rw [hlead]
      rfl
    · have hstop := h.isLine.stop
      rw [hc] at hstop
      rw [List.getLast?_append, hc]
      exact hstop
    · rw [List.mem_append, not_or]
      exact ⟨by decide +kernel, h.isLine.single⟩
  have hlines : Text.lines (temporaryPath / name).text.toList = [(temporaryPath / name).text.toList] :=
    Text.lines_join (fun _ hl => List.mem_singleton.1 hl ▸ hline) (List.cons_ne_nil _ [])
  have hfilled : (temporaryPath / name).text.toList.isEmpty = false := List.isEmpty_eq_false_iff.2 hline.ne_nil
  have habsolute : (temporaryPath / name).isAbsolute = true := (segments_temporary (isAbsolute_name h)).2
  unfold Repository.reportedFile?
  rw [hline.trimmed_unlines, hlines, List.getLast?_singleton, Option.getD_some, hline.trim]
  dsimp only
  rw [hfilled, String.ofList_toList, if_neg (by decide), if_pos habsolute]

end

/-! ### Taking patches out -/

/-- Nothing is in the temporary directory. -/
structure FileTree.EmptyTemporary (t : FileTree) : Prop where
  directory : t.find? temporaryDirectory = some .directory
  empty : ∀ name, t.find? (temporaryDirectory ++ [name]) = none

/-- A patch is in the temporary directory, and nothing else. -/
structure FileTree.HoldsPatch (t : FileTree) (patch : Patch) : Prop where
  directory : t.find? temporaryDirectory = some .directory
  file : ∃ executable, t.find? (temporaryDirectory ++ [patch.fileName]) = some (.file patch.content executable)
  empty : ∀ name, name ≠ patch.fileName → t.find? (temporaryDirectory ++ [name]) = none

/-- Git writes a commit as a file into the temporary directory, and reports the file. -/
structure Runner.WritesPatch (runner : Runner σ) (r : Repository) (commit : String) (patch : Patch) : Prop where
  reports : runner.Prints (patchCommand r commit) (unlines [(temporaryPath / patch.fileName).text])
  writes : ∀ s t, t.EmptyTemporary → (runner.run (patchCommand r commit) s t).2.2.HoldsPatch patch

section

variable {patch : Patch} (hname : IsFileName patch.fileName)

include hname

private theorem lookup_patch {t : FileTree} (h : t.HoldsPatch patch) :
    ∃ executable, t.lookup (temporaryPath / patch.fileName) = .ok (.file patch.content executable) := by
  obtain ⟨executable, hfile⟩ := h.file
  exact ⟨executable, FileTree.lookup_eq_file_iff.2 ⟨_, walk_temporaryFile hname h.directory, rfl, hfile⟩⟩

/-- Without its patch the temporary directory is empty again. -/
private theorem removeFile_patch {t : FileTree} (h : t.HoldsPatch patch) :
    ∃ t', t.removeFile (temporaryPath / patch.fileName) = .ok t' ∧ t'.EmptyTemporary := by
  obtain ⟨executable, hlookup⟩ := lookup_patch hname h
  have hne : temporaryDirectory ++ [patch.fileName] ≠ [] := by simp
  refine ⟨_, FileTree.removeFile_of_file hlookup (walk_temporaryFile hname h.directory), ?_, fun name => ?_⟩
  · rw [FileTree.find?_erase _ hne, if_neg (by simp), h.directory]
  · rw [FileTree.find?_erase _ hne]
    by_cases heq : name = patch.fileName
    · rw [if_pos (by rw [heq])]
    · rw [if_neg (by simpa using heq), h.empty name heq]

private theorem perform_formatPatch {commit : String} (h : runner.WritesPatch r commit patch) (w : World σ) :
    (r.formatPatch runner commit temporaryPath).perform w =
      (.ok (temporaryPath / patch.fileName), ((Action.call runner (patchCommand r commit)).perform w).2) := by
  have hask := Repository.perform_ask h.reports w
  unfold Repository.formatPatch
  rw [Action.perform_bind_ok (congrArg Prod.fst hask), reportedFile?_temporaryFile hname, hask]
  rfl

/-- A commit is taken out as its patch, and nothing stays. -/
theorem gives_extractPatch {commit : String} (h : runner.WritesPatch r commit patch) :
    Gives (fun w => w.files.EmptyTemporary) (extractPatch runner r temporaryPath commit) (.ok patch) := by
  intro w hw
  have hformat := perform_formatPatch hname h w
  have hholds : ((Action.call runner (patchCommand r commit)).perform w).2.files.HoldsPatch patch := by
    rw [Action.perform_call]
    exact h.writes _ _ hw
  generalize ((Action.call runner (patchCommand r commit)).perform w).2 = v at hformat hholds
  obtain ⟨executable, hlookup⟩ := lookup_patch hname hholds
  obtain ⟨t, hremove, hempty⟩ := removeFile_patch hname hholds
  have hread : v.files.read (temporaryPath / patch.fileName) = .ok patch.content :=
    FileTree.read_eq_ok_iff.2 ⟨executable, hlookup⟩
  have hchange : (Action.changeFiles .file (·.removeFile (temporaryPath / patch.fileName))).perform v =
      (.ok ⟨⟩, { v with files := t }) := by
    rw [Action.perform_changeFiles, hremove]
  unfold extractPatch
  rw [Action.perform_bind_ok (congrArg Prod.fst hformat), hformat, Action.perform_bind_ok (x := v) rfl,
    Action.perform_get, hread, Action.perform_bind_ok (x := patch.content) rfl, Action.perform_ofFile,
    fileName?_temporaryFile hname]
  dsimp only
  rw [Action.perform_bind_ok (congrArg Prod.fst hchange), hchange]
  exact ⟨rfl, hempty⟩

end

/-- The patches of all commits after a revision that changed the package. -/
theorem gives_patches {revision : String} {commits : List String} {patch : String → Patch}
    (hcommits : ∀ c ∈ commits, IsLine c.toList)
    (hlist : runner.Prints (r.question ["rev-list", "--reverse", revision ++ "..HEAD", "--", "."]) (unlines commits))
    (hnames : ∀ c ∈ commits, IsFileName (patch c).fileName)
    (hwrites : ∀ c ∈ commits, runner.WritesPatch r c (patch c)) :
    Gives (fun _ => True) (extractPatches runner r revision) (.ok (commits.map patch)) := by
  refine (Repository.gives_localCommits hcommits hlist).bind_ok ?_
  by_cases hnone : commits.isEmpty = true
  · rw [if_pos hnone, List.isEmpty_iff.1 hnone]
    exact .pure []
  · rw [if_neg hnone]
    intro w _
    have hne := temporaryDirectory_ne_nil
    have hcleared : (w.files.clear temporaryDirectory).EmptyTemporary := by
      refine ⟨?_, fun name => ?_⟩
      · rw [FileTree.find?_clear _ hne, if_pos rfl]
      · rw [FileTree.find?_clear _ hne, if_neg (by simp), if_pos (List.prefix_append _ _)]
    have hpatches : Gives (fun w => w.files.EmptyTemporary)
        (commits.mapM (extractPatch runner r temporaryPath)) (.ok (commits.map patch)) :=
      .mapM fun c hc => gives_extractPatch (hnames c hc) (hwrites c hc)
    rw [perform_withTemporaryDirectory]
    exact ⟨(hpatches _ hcleared).1, trivial⟩

end RosRecipes
