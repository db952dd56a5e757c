import RosRecipes.Proofs.Generation.Lockstep
import RosRecipes.Proofs.Generation.Record

/-!
# Comparing is an oracle for writing

A run that compares changes nothing, and it tells what a run that writes would do or has done
(`comparison_is_oracle`).  The two runs go in step; what differs is only how they treat emissions:

* `lockstep_compare`: two runs that compare leave one and the same tree as it is,
* `lockstep_written`: a run that compares with the tree that another one has written,
* `lockstep_present`: a run that writes into a tree that holds everything already.
-/

namespace RosRecipes

open FileTree (Same)

variable {σ : Type} {t : FileTree}

/-- The world of a run with nothing remembered but what is kept between runs. -/
def World.fresh (tools : σ) (files : FileTree) (mode : OutputMode) (storedCache : Option StoredCache) : World σ :=
  { tools, files, mode, storedCache }

/-! ### Three ways to go in step -/

/-- Both runs compare with `t`. -/
structure BothCompare (t : FileTree) (u v : World σ) : Prop where
  mode : u.mode = .compare
  mode' : v.mode = .compare
  files : u.files.Same t
  files' : v.files.Same t

theorem lockstep_compare (t : FileTree) : Lockstep (σ := σ) (BothCompare t) fun _ _ => False where
  beside u v u' v' h hu hv :=
    ⟨hu.mode.trans h.mode, hv.mode.trans h.mode', hu.files.trans h.files, hv.files.trans h.files'⟩
  emit u v p content h := by
    obtain ⟨log, printed, hu⟩ := Action.emit_compare h.mode p content
    obtain ⟨log', printed', hv⟩ := Action.emit_compare h.mode' p content
    refine .inl ?_
    rw [hu, hv]
    exact ⟨rfl, h.mode, h.mode', h.files, h.files'⟩
  spoiled u v u' v' h _ _ := h

/-- What a comparison of emissions with `t` notes. -/
def missing (t : FileTree) (emitted : List Emission) : List Path :=
  (emitted.filter fun e => !t.holds e.path e.content).map (·.path)

/-- The first run has written what is recorded, the second one compares the same with `t`. -/
structure WritesThenCompares (t : FileTree) (u v : World σ) : Prop where
  mode : u.mode = .write
  mode' : v.mode = .compare
  recorded : Recorded u.files u.emitted
  files' : v.files.Same t
  outOfDate : v.outOfDate = missing t u.emitted

/-- An emission could not be written. -/
def Refused (w : World σ) : Prop := ∃ e ∈ w.emitted, e.refused = true

instance (w : World σ) : Decidable (Refused w) := inferInstanceAs (Decidable (∃ e ∈ w.emitted, e.refused = true))

theorem Refused.later {u v : World σ} (h : Refused u) (hlater : u.Later v) : Refused v := by
  obtain ⟨e, he, hrefused⟩ := h
  exact ⟨e, hlater.emitted.subset he, hrefused⟩

theorem lockstep_written (t : FileTree) : Lockstep (σ := σ) (WritesThenCompares t) fun u _ => Refused u where
  beside u v u' v' h hu hv := by
    refine ⟨hu.mode.trans h.mode, hv.mode.trans h.mode', ?_, hv.files.trans h.files', ?_⟩
    · rw [hu.emitted]
      exact h.recorded.same hu.files
    · rw [hv.outOfDate, hu.emitted, h.outOfDate]
  emit u v p content h := by
    obtain ⟨log, printed, hv⟩ := Action.emit_compare h.mode' p content
    rcases Action.emit_write h.mode p content with ⟨t', hwrote, hu⟩ | ⟨e, t', -, hu⟩
    · refine .inl ?_
      rw [hu, hv]
      refine ⟨rfl, h.mode, h.mode', h.recorded.write hwrote false, h.files', ?_⟩
      show v.outOfDate ++ (if v.files.holds p content = true then [] else [p]) =
        missing t (u.emitted ++ [⟨p, content, false⟩])
      rw [h.outOfDate, h.files'.holds]
      unfold missing
      cases hholds : t.holds p content <;> simp [hholds]
    · refine .inr ⟨⟨p, content, true⟩, ?_, rfl⟩
      rw [hu]
      exact List.mem_append_right _ (List.mem_singleton_self _)
  spoiled u v u' v' h hu _ := h.later hu

/-- Both runs leave `t` as it is, and the second one finds nothing to note. -/
structure NothingToDo (t : FileTree) (u v : World σ) : Prop where
  mode : u.mode = .write
  mode' : v.mode = .compare
  files : u.files.Same t
  files' : v.files.Same t
  accepted : ¬ Refused u
  outOfDate : u.outOfDate = []
  outOfDate' : v.outOfDate = []

theorem lockstep_present (t : FileTree) : Lockstep (σ := σ) (NothingToDo t) fun _ v => v.outOfDate ≠ [] where
  beside u v u' v' h hu hv := by
    refine ⟨hu.mode.trans h.mode, hv.mode.trans h.mode', hu.files.trans h.files, hv.files.trans h.files', ?_, ?_, ?_⟩
    · unfold Refused
      rw [hu.emitted]
      exact h.accepted
    · rw [hu.outOfDate, h.outOfDate]
    · rw [hv.outOfDate, h.outOfDate']
  emit u v p content h := by
    obtain ⟨log, printed, hv⟩ := Action.emit_compare h.mode' p content
    cases hholds : v.files.holds p content with
    | true =>
      -- Writing what is there already changes nothing.
      have hpresent : u.files.holds p content = true := by
        rw [h.files.holds, ← h.files'.holds, hholds]
      obtain ⟨t', hsame, hu⟩ := Action.emit_present h.mode hpresent
      rw [hholds] at hv
      refine .inl ?_
      rw [hu, hv]
      refine ⟨rfl, h.mode, h.mode', hsame.trans h.files, h.files', ?_, h.outOfDate, ?_⟩
      · rintro ⟨e, he, hrefused⟩
        rcases List.mem_append.1 he with he | he
        · exact h.accepted ⟨e, he, hrefused⟩
        · rw [List.mem_singleton.1 he] at hrefused
          cases hrefused
      · show v.outOfDate ++ [] = []
        rw [h.outOfDate', List.append_nil]
    | false =>
      -- From here on, the comparison has something to note.
      refine .inr ?_
      rw [hv, hholds]
      exact List.append_ne_nil_of_right_ne_nil _ (List.cons_ne_nil p [])
  spoiled u v u' v' h _ hv := by
    intro hnil
    have hle := hv.outOfDate
    rw [hnil] at hle
    exact h (List.prefix_nil.1 hle)

/-- With the content of what was recorded, only emissions without the last word are missed. -/
theorem Recorded.missing_eq {emitted : List Emission} (h : Recorded t emitted) :
    missing t emitted = superseded t emitted := by
  unfold missing superseded
  rw [List.filter_congr fun e he => ?_]
  obtain ⟨content, hread, hlast⟩ := h e he
  rw [hlast, FileTree.holds, hread]
  simp

/-! ### Whole runs -/

namespace Job

variable {job : Job σ} {files : FileTree} {mode : OutputMode} {storedCache : Option StoredCache} {tools tools' : σ}

/-- A run reports what was generated, and what was noted meanwhile. -/
theorem perform_run (job : Job σ) (tools : σ) (files : FileTree) (mode : OutputMode)
    (storedCache : Option StoredCache) :
    let w := World.fresh tools files mode storedCache
    ∃ log, job.run.perform w =
      ((job.generate.perform w).1.map fun r => { r with outOfDate := (job.generate.perform w).2.outOfDate },
        { (job.generate.perform w).2 with log }) := by
  intro w
  unfold run
  rw [Action.perform_bind_ok (x := ⟨⟩) rfl]
  show ∃ log, Action.perform (job.generate >>= conclude) w = _
  cases hr : (job.generate.perform w).1 with
  | error e =>
    rw [Action.perform_bind_error hr]
    exact ⟨_, rfl⟩
  | ok r =>
    rw [Action.perform_bind_ok hr]
    unfold conclude
    rw [Action.perform_bind_ok rfl]
    dsimp only [Action.perform_get]
    by_cases hnil : (job.generate.perform w).2.outOfDate.isEmpty = true
    · simp only [hnil]
      exact ⟨_, rfl⟩
    · simp only [hnil]
      exact ⟨_, rfl⟩

/-- What a run that was not given up had generated. -/
private theorem generate_of_run {outcome : Except Error Report} {outOfDate : List Path} {r : Report}
    (hr : outcome.map (fun r => { r with outOfDate }) = .ok r) :
    ∃ r', outcome = .ok r' ∧ { r' with outOfDate } = r := by
  cases outcome with
  | error e => cases hr
  | ok r' => exact ⟨r', rfl, Except.ok.inj hr⟩

/-- Each manifest that is a file after the run was one already when its turn came. -/
def FindsManifests (job : Job σ) (w : World σ) : Prop :=
  ∀ before path after, job.configuration.sources = before ++ path :: after →
    (job.run.perform w).2.files.isFile path = true →
    ((before.foldlM job.addPackage {}).perform w).2.files.isFile path = true

section

variable (h : job.runner.Steady)

include h

/-- A run that compares leaves the tree as it is. -/
theorem same_of_compare :
    (job.run.perform (World.fresh tools files .compare storedCache)).2.files.Same files := by
  obtain ⟨log, hrun⟩ := perform_run job tools files .compare storedCache
  rw [hrun]
  have hstart : BothCompare files (World.fresh tools files .compare storedCache)
      (World.fresh tools files .compare storedCache) := ⟨rfl, rfl, .refl _, .refl _⟩
  have hrelated := related_generate (lockstep_compare files) h (.refl _) hstart fun _ path _ _ _ hturn =>
    .inl ((hturn.files.trans hturn.files'.symm).readText path)
  obtain ⟨-, -, hend⟩ | hspoiled := hrelated
  · exact hend.files
  · exact hspoiled.elim

omit h in
/-- A manifest that nothing was written to reads the same after the run as at its turn. -/
private theorem readsAlike_turn {w w' : World σ} (hlater : w.Later w') {path : Path}
    (hfound : w'.files.isFile path = true → w.files.isFile path = true)
    (hfree : ∀ e ∈ w'.emitted, w'.files.sameFile e.path path = false) : ReadsAlike w.files w'.files path := by
  have hunread : ∀ t : FileTree, ¬ t.isFile path = true → ∃ fault, t.readText path = .error fault := by
    intro t hno
    unfold FileTree.readText
    cases hread : t.read path with
    | error fault => exact ⟨fault, rfl⟩
    | ok content => exact absurd (FileTree.isFile_iff.2 ⟨content, hread⟩) hno
  by_cases hfile : w'.files.isFile path = true
  · refine .inl ?_
    unfold FileTree.readText
    rw [hlater.read (hfound hfile) hfree]
  · exact .inr ⟨hunread _ fun hbefore => hfile (hlater.files.isFile hbefore), hunread _ hfile⟩

/-- Writing goes in step with comparing what was written, since each manifest reads the same at its turn. -/
private theorem related_after_write
    (hfree : ∀ path ∈ job.configuration.sources,
      ∀ e ∈ (job.generate.perform (World.fresh tools files .write storedCache)).2.emitted,
        (job.generate.perform (World.fresh tools files .write storedCache)).2.files.sameFile e.path path = false)
    (hfound : ∀ before path after, job.configuration.sources = before ++ path :: after →
      (job.generate.perform (World.fresh tools files .write storedCache)).2.files.isFile path = true →
      ((before.foldlM job.addPackage {}).perform (World.fresh tools files .write storedCache)).2.files.isFile path =
        true) :
    let w := (job.generate.perform (World.fresh tools files .write storedCache)).2
    Action.Related (WritesThenCompares w.files) (fun u _ => Refused u) job.generate
      (World.fresh tools files .write storedCache) (World.fresh tools' w.files .compare storedCache) := by
  intro w
  have hlater : (World.fresh tools files .write storedCache).Later w :=
    later_turn (lockstep_written w.files) h (List.nil_append job.configuration.sources).symm
  have hstart : WritesThenCompares w.files (World.fresh tools files .write storedCache)
      (World.fresh tools' w.files .compare storedCache) := ⟨rfl, rfl, nofun, .refl _, rfl⟩
  have halike : World.Alike (World.fresh tools files .write storedCache)
      (World.fresh tools' w.files .compare storedCache) := ⟨hlater.files.home, rfl, rfl, rfl, rfl⟩
  refine related_generate (lockstep_written w.files) h halike hstart fun before path after v' hsources hturn => ?_
  have hpath : path ∈ job.configuration.sources := by
    rw [hsources]
    exact List.mem_append_right _ List.mem_cons_self
  have hrest := later_turn (lockstep_written w.files) h (w := World.fresh tools files .write storedCache) hsources
  have hreads := readsAlike_turn hrest (hfound before path after hsources) (hfree path hpath)
  unfold ReadsAlike at hreads ⊢
  rw [hturn.files'.readText]
  exact hreads

/-- After a run that writes, a run that compares reports the same, and notes the emissions without the last word. -/
theorem compare_after_write {r : Report}
    (hwrite : (job.run.perform (World.fresh tools files .write storedCache)).1 = .ok r)
    (haccepted : ¬ Refused (job.run.perform (World.fresh tools files .write storedCache)).2)
    (hfree : ∀ path ∈ job.configuration.sources,
      ∀ e ∈ (job.run.perform (World.fresh tools files .write storedCache)).2.emitted,
        (job.run.perform (World.fresh tools files .write storedCache)).2.files.sameFile e.path path = false)
    (hfound : job.FindsManifests (World.fresh tools files .write storedCache)) :
    let w := (job.run.perform (World.fresh tools files .write storedCache)).2
    (job.run.perform (World.fresh tools' w.files .compare storedCache)).1 =
      .ok { r with outOfDate := superseded w.files w.emitted } ∧ Recorded w.files w.emitted := by
  obtain ⟨log, hrun⟩ := perform_run job tools files .write storedCache
  unfold FindsManifests at hfound
  rw [hrun] at hwrite haccepted hfree hfound
  rw [hrun]
  intro w
  obtain ⟨log', hrun'⟩ := perform_run job tools' w.files .compare storedCache
  obtain ⟨r', hr', rfl⟩ := generate_of_run hwrite
  have hrelated : Action.Related _ _ _ _ (World.fresh tools' w.files .compare storedCache) :=
    related_after_write h hfree hfound
  obtain ⟨hr, -, hend⟩ | hrefused := hrelated
  · rw [hrun']
    refine ⟨?_, hend.recorded⟩
    rw [← hr, hr']
    show Except.ok _ = _
    rw [hend.outOfDate, hend.recorded.missing_eq]
  · exact absurd hrefused haccepted

/-- If a run that compares notes nothing, a run that writes reports the same and changes nothing. -/
theorem write_after_compare {r : Report}
    (hcompare : (job.run.perform (World.fresh tools files .compare storedCache)).1 = .ok r) (hnil : r.outOfDate = []) :
    let w := (job.run.perform (World.fresh tools' files .write storedCache))
    w.1 = .ok r ∧ w.2.files.Same files ∧ ¬ Refused w.2 := by
  intro w
  obtain ⟨log, hrun⟩ := perform_run job tools files .compare storedCache
  obtain ⟨log', hrun'⟩ := perform_run job tools' files .write storedCache
  have hstart : NothingToDo files (World.fresh tools' files .write storedCache)
      (World.fresh tools files .compare storedCache) :=
    ⟨rfl, rfl, .refl _, .refl _, fun ⟨_, he, _⟩ => List.not_mem_nil he, rfl, rfl⟩
  have halike : World.Alike (World.fresh tools' files .write storedCache)
      (World.fresh tools files .compare storedCache) := ⟨rfl, rfl, rfl, rfl, rfl⟩
  have hrelated := related_generate (lockstep_present files) h halike hstart
    fun _ path _ _ _ hturn => .inl ((hturn.files.trans hturn.files'.symm).readText path)
  rw [hrun] at hcompare
  obtain ⟨r', hr', rfl⟩ := generate_of_run hcompare
  obtain ⟨hr, -, hend⟩ | hspoiled := hrelated
  · show (job.run.perform _).1 = _ ∧ (job.run.perform _).2.files.Same files ∧ ¬ Refused (job.run.perform _).2
    rw [hrun', hr, hr']
    refine ⟨?_, hend.files, hend.accepted⟩
    show Except.ok _ = _
    rw [hend.outOfDate, hend.outOfDate']
  · exact absurd hnil hspoiled

/-- Manifests that are files from the start are found. -/
theorem findsManifests_of_isFile (hfiles : ∀ path ∈ job.configuration.sources, files.isFile path = true) :
    job.FindsManifests (World.fresh tools files mode storedCache) := by
  intro before path after hsources _
  have hpath : path ∈ job.configuration.sources := by
    rw [hsources]
    exact List.mem_append_right _ List.mem_cons_self
  have hlater := adds_sources (lockstep_compare files) h before {} (World.fresh tools files mode storedCache)
  exact hlater.files.isFile (hfiles path hpath)

/-- Comparing is an oracle for writing.  The tree holds ordinary files that can be read and written, and directories;
there are no links, devices or permissions in it.  Suppose that the answers of outside programs depend on the command
only, and that they leave the files alone, except for patches in the directory that these are to be written to.  Then,
for runs that start with nothing remembered but the same stored cache:

* A run that compares leaves the tree as it is.
* After a run that writes, if nothing was refused, no manifest was written to, and no manifest became a file only
  after its turn, a run that compares reports the same packages and failures, and notes just the emissions whose
  content is not that of the last emission to the same file; none, if no two emissions go to one file.
* If a run that compares notes nothing, a run that writes into the same tree reports the same, nothing is refused, and
  the tree stays as it is. -/
theorem comparison_is_oracle (storedCache : Option StoredCache) :
    (∀ tools files, (job.run.perform (World.fresh tools files .compare storedCache)).2.files.Same files) ∧
    (∀ tools tools' files r,
      let start := World.fresh tools files .write storedCache
      let w := (job.run.perform start).2
      (job.run.perform start).1 = .ok r → ¬ Refused w →
      (∀ path ∈ job.configuration.sources, ∀ e ∈ w.emitted, w.files.sameFile e.path path = false) →
      job.FindsManifests start →
      (job.run.perform (World.fresh tools' w.files .compare storedCache)).1 =
        .ok { r with outOfDate := superseded w.files w.emitted } ∧
      ((w.emitted.Pairwise fun e e' => w.files.sameFile e.path e'.path = false) →
        superseded w.files w.emitted = [])) ∧
    ∀ tools tools' files r,
      (job.run.perform (World.fresh tools files .compare storedCache)).1 = .ok r → r.outOfDate = [] →
      let w := (job.run.perform (World.fresh tools' files .write storedCache)).2
      (job.run.perform (World.fresh tools' files .write storedCache)).1 = .ok r ∧ w.files.Same files ∧ ¬ Refused w := by
  refine ⟨fun tools files => same_of_compare h, ?_, ?_⟩
  · intro tools tools' files r start w hwrite haccepted hfree hfound
    obtain ⟨hcompare, hrecorded⟩ := compare_after_write h hwrite haccepted hfree hfound
    exact ⟨hcompare, superseded_eq_nil hrecorded⟩
  · intro tools tools' files r hcompare hnil
    exact write_after_compare h hcompare hnil

omit h in
theorem exists_of_toOption {α β : Type} {x : Except Error α} {f : α → β} {b : β}
    (hx : x.toOption.map f = some b) : ∃ a, x = .ok a ∧ f a = b := by
  cases x with
  | error e => cases hx
  | ok a => exact ⟨a, rfl, Option.some.inj hx⟩

end

/-! ### Two packages -/

/-- Two packages, with a file for each and all that is written beside them. -/
def twoPackages : Job Unit where
  configuration := {
    sources := [⟨"a/package.xml"⟩, ⟨"b/package.xml"⟩], naming := .package, directory := some ⟨"out"⟩, flake := true }
  database := .nothing
  runner := .empty
  year := "2024"

def twoManifests : FileTree where
  entries := ⟨[
    (["a"], .directory),
    (["a", "package.xml"], .file "<package><name>a</name><version>1</version></package>".toUTF8 false),
    (["b"], .directory),
    (["b", "package.xml"], .file "<package><name>b</name><version>1</version></package>".toUTF8 false)]⟩
  home := []

/-- After two packages were written, there is nothing to note and nothing to do. -/
theorem comparison_of_two_packages :
    (∃ r, (twoPackages.run.perform (World.fresh () twoManifests .write none)).1 = .ok r ∧
      (twoPackages.run.perform (World.fresh ()
        (twoPackages.run.perform (World.fresh () twoManifests .write none)).2.files .compare none)).1 =
        .ok { r with outOfDate := [] }) ∧
    (twoPackages.run.perform (World.fresh ()
      (twoPackages.run.perform (World.fresh () twoManifests .write none)).2.files .write none)).2.files.Same
      (twoPackages.run.perform (World.fresh () twoManifests .write none)).2.files := by
  have hwrite :
      (twoPackages.run.perform (World.fresh () twoManifests .write none)).1.toOption.map (·.failed) = some [] ∧
      ¬ Refused (twoPackages.run.perform (World.fresh () twoManifests .write none)).2 ∧
      (∀ path ∈ twoPackages.configuration.sources,
        ∀ e ∈ (twoPackages.run.perform (World.fresh () twoManifests .write none)).2.emitted,
          (twoPackages.run.perform (World.fresh () twoManifests .write none)).2.files.sameFile e.path path = false) ∧
      (∀ path ∈ twoPackages.configuration.sources, twoManifests.isFile path = true) ∧
      (twoPackages.run.perform (World.fresh () twoManifests .write none)).2.emitted.Pairwise fun e e' =>
        (twoPackages.run.perform (World.fresh () twoManifests .write none)).2.files.sameFile e.path e'.path =
          false := by
    decide +kernel
  obtain ⟨hfailed, haccepted, hfree, hfiles, hdistinct⟩ := hwrite
  obtain ⟨r, hr, -⟩ := exists_of_toOption hfailed
  have hsteady : twoPackages.runner.Steady := Runner.steady_empty
  have hfound : twoPackages.FindsManifests (World.fresh () twoManifests .write none) :=
    findsManifests_of_isFile hsteady hfiles
  have horacle := comparison_is_oracle hsteady none
  have hafter := horacle.2.1 () () twoManifests r hr haccepted hfree hfound
  have hcompare := hafter.1
  rw [hafter.2 hdistinct] at hcompare
  have hbefore := horacle.2.2 () () _ _ hcompare rfl
  exact ⟨⟨r, hr, hcompare⟩, hbefore.2.1⟩

/-! ### A detour -/

/-- A package whose manifest is found by way of the directory of its recipe. -/
def detour : Job Unit where
  configuration := {
    sources := [⟨"out/../pkg/package.xml"⟩], directory := some ⟨"out"⟩, shell := false, default := some false }
  database := .nothing
  runner := .empty
  year := "2024"

def detourManifest : FileTree where
  entries := ⟨[
    (["pkg"], .directory),
    (["pkg", "package.xml"], .file "<package><name>demo</name><version>1</version></package>".toUTF8 false)]⟩
  home := []

/-- A run that compares may find a manifest that the run that has written could not, because that run created a
directory on the way to it. -/
theorem comparison_sees_new_directories :
    ¬ ∀ (job : Job Unit) (files : FileTree) (r : Report), job.runner.Steady →
      (job.run.perform (World.fresh () files .write none)).1 = .ok r →
      ¬ Refused (job.run.perform (World.fresh () files .write none)).2 →
      (∀ path ∈ job.configuration.sources, ∀ e ∈ (job.run.perform (World.fresh () files .write none)).2.emitted,
        (job.run.perform (World.fresh () files .write none)).2.files.sameFile e.path path = false) →
      ∃ r', (job.run.perform (World.fresh () (job.run.perform (World.fresh () files .write none)).2.files .compare
        none)).1 = .ok r' ∧ r'.packages = r.packages ∧ r'.failed = r.failed := by
  intro hclaim
  have hwrite :
      (detour.run.perform (World.fresh () detourManifest .write none)).1.toOption.map (·.failed) =
        some [⟨"out/../pkg/package.xml"⟩] ∧
      ¬ Refused (detour.run.perform (World.fresh () detourManifest .write none)).2 ∧
      (∀ path ∈ detour.configuration.sources,
        ∀ e ∈ (detour.run.perform (World.fresh () detourManifest .write none)).2.emitted,
          (detour.run.perform (World.fresh () detourManifest .write none)).2.files.sameFile e.path path = false) := by
    decide +kernel
  have hcompare : (detour.run.perform (World.fresh ()
      (detour.run.perform (World.fresh () detourManifest .write none)).2.files .compare none)).1.toOption.map
        (·.failed) = some [] := by
    decide +kernel
  obtain ⟨r, hr, hfailed⟩ := exists_of_toOption hwrite.1
  obtain ⟨r', hr', -, hsame⟩ := hclaim detour detourManifest r Runner.steady_empty hr hwrite.2.1 hwrite.2.2
  rw [hr'] at hcompare
  have hnone : r'.failed = [] := Option.some.inj hcompare
  rw [hsame, hfailed] at hnone
  cases hnone

end Job

end RosRecipes
