import RosRecipes.Proofs.Configuration
import RosRecipes.Proofs.Generation.Comparison
import RosRecipes.Proofs.Generation.TopLevel
import RosRecipes.Proofs.Generation.Turns

/-!
# Recipes that are overwritten

Nothing keeps the files of a run apart but the names of patches.  After a run that writes, the file of a recipe holds
what was accepted last for it, which may be another recipe, a patch, or a file beside the recipes
(`last_emission_counts`).  So the recipes are kept if no two emissions go to one file; and without patches, for files
that are named after packages, just if these names differ.

* `Job.KeepsRecipes`: each recipe has its own file after the run, and is in it.
-/

namespace RosRecipes

variable {σ : Type} {t : FileTree} {p q : Path} {name other : String}

/-! ### Names of files -/

/-- What names the file of a path is followed by pieces that name nothing. -/
theorem Path.segments_of_fileName? (h : p.fileName? = some name) : ∃ front last idle,
    p.segments = front ++ last :: idle ∧ componentOf? last = some (.name name) ∧
      ∀ segment ∈ idle, isIdle segment = true := by
  have hlast := fileName?_eq_some_iff.1 h
  obtain ⟨idle, hsegments, hidle⟩ := dropIdleEnd_append p.segments
  have hnone : idle.filterMap componentOf? = [] := by
    refine List.filterMap_eq_nil_iff.2 fun segment hsegment => ?_
    unfold componentOf?
    rw [if_pos (hidle segment hsegment)]
  unfold moves at hlast
  rw [hsegments, List.filterMap_append, hnone, List.append_nil] at hlast
  rcases List.eq_nil_or_concat (dropIdleEnd p.segments) with hkept | ⟨front, last, hkept⟩
  · rw [hkept] at hlast
    cases hlast
  · rw [List.concat_eq_append] at hkept
    have hbusy := dropIdleEnd_last hkept
    rw [hkept] at hlast hsegments
    refine ⟨front, last, idle, by rw [hsegments, List.append_assoc]; rfl, ?_, hidle⟩
    cases hcomponent : componentOf? last with
    | none =>
      unfold componentOf? at hcomponent
      rw [hbusy, if_neg Bool.false_ne_true] at hcomponent
      split at hcomponent
      · cases hcomponent
      · cases hcomponent
    | some c =>
      rw [List.filterMap_append, List.filterMap_cons_some hcomponent, List.filterMap_nil, List.getLast?_concat] at hlast
      exact hlast

namespace FileTree

theorem step_of_name {here there : Place} {segment : List Char} (h : t.step here segment = .ok there)
    (hname : Path.componentOf? segment = some (.name name)) : there = here ++ [name] := by
  unfold Path.componentOf? at hname
  split at hname
  · cases hname
  next hbusy =>
  split at hname
  · cases hname
  next hup =>
  cases hname
  rcases step_cases h with ⟨rfl, -⟩ | ⟨-, -, ⟨rfl, -⟩ | ⟨rfl, -⟩ | ⟨-, -, hthere⟩⟩
  · exact absurd rfl hbusy
  · exact absurd rfl hbusy
  · exact absurd rfl hup
  · exact hthere

/-- The last name of a path is the name of the place where it leads. -/
theorem getLast?_place {target : Target} (hwalk : t.walk p = .ok target) (hname : p.fileName? = some name) :
    target.place.getLast? = some name := by
  have hsteps := foldlM_of_walk hwalk
  obtain ⟨front, last, idle, hsegments, hlast, hidle⟩ := Path.segments_of_fileName? hname
  rw [hsegments] at hsteps
  obtain ⟨here, -, hmore⟩ := foldlM_append_ok hsteps
  obtain ⟨there, hstep, hstay⟩ := foldlM_step_cons hmore
  rw [foldlM_idle hidle hstay, step_of_name hstep hlast, List.getLast?_concat]

/-- Paths with different last names do not lead to one file. -/
theorem sameFile_of_fileName?_ne (hp : p.fileName? = some name) (hq : q.fileName? = some other) (hne : name ≠ other) :
    t.sameFile p q = false := by
  rw [Bool.eq_false_iff]
  intro hsame
  obtain ⟨a, b, ha, hb, -, -, hplace⟩ := sameFile_iff.1 hsame
  have hlast := getLast?_place ha hp
  rw [hplace, getLast?_place hb hq] at hlast
  exact hne (Option.some.inj hlast).symm

end FileTree

/-- The emissions that were written. -/
def World.accepted (w : World σ) : List Emission := w.emitted.filter (!·.refused)

namespace Job

variable {job : Job σ} {start w w' : World σ} {r : Report} {d : Draft} {path : Path}

theorem topContents_paths (job : Job σ) (packages : List GeneratedPackage) :
    (job.topContents packages).map (·.1) = job.configuration.topFiles := by
  have hone : ∀ asked name text, (job.topContent asked name text).map (·.1) =
      ([(name, asked)].filter (·.2)).map fun n => job.configuration.topDirectory / n.1 := by
    intro asked name text
    cases asked with
    | true => rfl
    | false => rfl
  unfold topContents
  rw [List.map_append, List.map_append, List.map_append, hone, hone, hone, hone, ← List.map_append,
    ← List.filter_append, ← List.map_append, ← List.filter_append, ← List.map_append, ← List.filter_append]
  rfl

/-- The files beside the recipes have names of their own. -/
theorem fileName?_of_topContents {packages : List GeneratedPackage} {file : Path × ByteArray}
    (h : file ∈ job.topContents packages) :
    ∃ name, (name, true) ∈ job.configuration.topNames ∧ file.1.fileName? = some name := by
  have hplain : ∀ name ∈ ["overlay.nix", "shell.nix", "flake.nix", "default.nix"],
      Path.fileName? ⟨name⟩ = some name := by
    decide
  have hnames : ∀ n ∈ job.configuration.topNames, Path.fileName? ⟨n.1⟩ = some n.1 :=
    fun n hn => hplain n.1 (List.mem_map_of_mem (f := Prod.fst) hn)
  have hfile : file.1 ∈ job.configuration.topFiles := by
    rw [← topContents_paths]
    exact List.mem_map_of_mem h
  obtain ⟨⟨name, asked⟩, hname, heq⟩ := List.mem_map.1 hfile
  obtain ⟨hmem, rfl⟩ := List.mem_filter.1 hname
  exact ⟨name, hmem, heq ▸ Path.fileName?_join (hnames _ hmem) _⟩

/-! ### The record of a run -/

/-- While a run writes, each file holds what was accepted last for it. -/
structure OnRecord (w : World σ) : Prop where
  mode : w.mode = .write
  recorded : Recorded w.files w.accepted

theorem kept_onRecord (h : job.runner.Steady) : job.Kept OnRecord where
  prepare := by
    refine fun path w hw => ⟨?_, fun _ _ => trivial⟩
    have hbeside := beside_prepare h path w
    refine ⟨hbeside.mode.trans hw.mode, ?_⟩
    unfold World.accepted
    rw [hbeside.emitted]
    exact hw.recorded.same hbeside.files
  emit := by
    refine fun p content w hw => ⟨?_, fun _ _ => trivial⟩
    rcases Action.emit_write hw.mode p content with ⟨t, hwrote, hperform⟩ | ⟨e, t, hextends, hperform⟩
    · rw [hperform]
      refine ⟨hw.mode, ?_⟩
      simpa [World.accepted] using hw.recorded.write hwrote false
    · -- What is refused is not accepted, but directories may have been created.
      rw [hperform]
      refine ⟨hw.mode, ?_⟩
      simpa [World.accepted] using hw.recorded.extends hextends
  claim := fun _ _ hw => ⟨hw.mode, hw.recorded⟩
  remark := fun _ _ hw => ⟨hw.mode, hw.recorded⟩

/-- The recipes of the drafts are accepted in order. -/
theorem accepted_sublist (hrun : (job.run.perform start).1 = .ok r) :
    ((job.drafts start).map Draft.emission).Sublist (job.run.perform start).2.accepted := by
  obtain ⟨added, hadded, hsublist⟩ := recipes_sublist hrun
  have hwritten : ((job.drafts start).map Draft.emission).filter (!·.refused) =
      (job.drafts start).map Draft.emission := by
    refine List.filter_eq_self.2 fun e he => ?_
    obtain ⟨d, -, rfl⟩ := List.mem_map.1 he
    rfl
  unfold World.accepted
  rw [hadded, ← hwritten]
  exact (hsublist.trans (List.sublist_append_right _ _)).filter _

theorem emission_accepted (hrun : (job.run.perform start).1 = .ok r) (hd : d ∈ job.drafts start) :
    d.emission ∈ (job.run.perform start).2.accepted :=
  (accepted_sublist hrun).subset (List.mem_map_of_mem hd)

theorem onRecord_of_run (h : job.runner.Steady) (hrun : (job.run.perform start).1 = .ok r) (hmode : start.mode = .write)
    (hstart : start.emitted = []) : OnRecord (job.run.perform start).2 := by
  refine (kept_onRecord h).run hrun ⟨hmode, ?_⟩
  unfold World.accepted
  rw [hstart]
  exact nofun

/-- Where a recipe goes, and that it has no patches unless they are asked for. -/
theorem files_of_prepare (h : (job.prepare path).perform w = (.ok d, w')) :
    d.outputFile = job.configuration.outputFile path d.manifest.name ∧
      (job.configuration.patches = false → d.patches = []) := by
  obtain ⟨manifest, w₁, -, h⟩ := Action.bind_ok_cases h
  obtain ⟨inputs, w₂, -, h⟩ := Action.bind_ok_cases h
  obtain ⟨⟨source, patches⟩, w₃, hsource, h⟩ := Action.bind_ok_cases h
  obtain ⟨text, w₄, -, h⟩ := Action.bind_ok_cases h
  cases h
  refine ⟨rfl, fun hnone => ?_⟩
  unfold sourceOf at hsource
  dsimp only at hsource
  cases hparameter : job.configuration.sourceParameter with
  | some name =>
    rw [hparameter] at hsource
    cases hsource
    rfl
  | none =>
    rw [hparameter] at hsource
    cases hfetch : job.configuration.fetch with
    | false =>
      rw [hfetch] at hsource
      cases hsource
      rfl
    | true =>
      rw [hfetch] at hsource
      obtain ⟨provenance, v, hresolve, hreturn⟩ := Action.bind_ok_cases hsource
      obtain ⟨c, v₁, -, hresolve⟩ := Action.bind_ok_cases hresolve
      obtain ⟨hashed, v₂, -, hresolve⟩ := Action.bind_ok_cases hresolve
      obtain ⟨found, v₃, hpatches, hresolve⟩ := Action.bind_ok_cases hresolve
      obtain ⟨⟨⟩, v₄, -, hresolve⟩ := Action.bind_ok_cases hresolve
      cases hresolve
      cases hreturn
      have hwanted : job.configuration.provenanceOptions.patches = false := hnone
      rw [hwanted] at hpatches
      cases hpatches
      rfl

/-- Without patches a turn has a draft just if its recipe is accepted. -/
private theorem accepted_of_package (hnone : job.configuration.patches = false) (path : Path) (w : World σ) :
    ((job.package path).perform w).2.accepted = w.accepted ++ (job.draft? path w).toList.map Draft.emission := by
  have hready := job.confined_prepare_emitted (· = w.emitted) path w rfl
  unfold package draft? World.accepted
  rw [Action.perform_bind]
  rcases hprepare : (job.prepare path).perform w with ⟨e | d, v⟩
  · rw [hprepare] at hready
    dsimp only
    rw [hready.1]
    exact (List.append_nil _).symm
  · rw [hprepare] at hready
    have hpatches := (files_of_prepare hprepare).2 hnone
    have hemitted := (Action.emitted_emit d.outputFile d.text.toUTF8 v).1
    rw [hready.1] at hemitted
    dsimp only
    rcases emitDraft_cases d v with ⟨e, v', hrecipe, hperform⟩ | ⟨u, -, ⟨e, v', hfail, -⟩ | ⟨v', log, -, hperform⟩⟩
    · rw [hrecipe] at hemitted
      rw [hperform]
      dsimp only at hemitted ⊢
      rw [hemitted, List.filter_append]
      rfl
    · rw [hpatches] at hfail
      cases hfail
    · have hdraft := emitted_emitDraft hperform
      rw [hperform]
      dsimp only at hdraft ⊢
      rw [hdraft, hready.1, hpatches, List.filter_append]
      rfl

private theorem accepted_of_sources (hnone : job.configuration.patches = false) {sources : List Path} {r r' : Report}
    (h : (sources.foldlM job.addPackage r).perform w = (.ok r', w')) :
    w'.accepted = w.accepted ++ (job.draftsFrom sources r w).map Draft.emission := by
  induction sources generalizing r w with
  | nil =>
    cases h
    exact (List.append_nil _).symm
  | cons path sources ih =>
    rw [List.foldlM_cons] at h
    obtain ⟨r₁, v, hpath, hrest⟩ := Action.bind_ok_cases h
    obtain ⟨log, hworld⟩ := world_of_addPackage hpath
    have haccepted : v.accepted = w.accepted ++ (job.draft? path w).toList.map Draft.emission := by
      rw [hworld]
      exact accepted_of_package hnone path w
    unfold draftsFrom
    rw [ih hrest, haccepted, hpath, List.map_append, List.append_assoc]

/-- Without patches, the recipes are accepted first, and then the files beside them. -/
theorem accepted_of_run (hnone : job.configuration.patches = false) (hrun : (job.run.perform start).1 = .ok r) :
    (job.run.perform start).2.accepted = start.accepted ++ (job.drafts start).map Draft.emission ++
      (job.topContents r.packages).map fun (p, content) => ⟨p, content, false⟩ := by
  obtain ⟨r', w, w', log, hsources, htop, hworld, hpackages, -⟩ := stages_of_run hrun
  obtain ⟨added, hadded, -, hall, -⟩ := emits_topLevel job r'.packages w
  rw [htop] at hadded hall
  rw [hworld, hpackages]
  have hnew : ∀ e ∈ added, (!e.refused) = true := by
    intro e he
    rw [hall rfl] at he
    obtain ⟨file, -, rfl⟩ := List.mem_map.1 he
    rfl
  have hsplit : w'.accepted = w.accepted ++ added := by
    unfold World.accepted
    rw [hadded, List.filter_append, List.filter_eq_self.2 hnew]
  show w'.accepted = _
  rw [hsplit, accepted_of_sources hnone hsources, hall rfl]
  rfl

/-! ### Recipes that are kept -/

/-- Different recipes of a run have different files, and each is in its file after the run. -/
structure KeepsRecipes (job : Job σ) (start : World σ) : Prop where
  apart : (job.drafts start).Pairwise fun d d' =>
    (job.run.perform start).2.files.sameFile d.outputFile d'.outputFile = false
  held : ∀ d ∈ job.drafts start, (job.run.perform start).2.files.read d.outputFile = .ok d.text.toUTF8

/-- Without patches, recipes whose files are named unlike the files beside them are kept just if these files differ. -/
private theorem keepsRecipes_iff_apart (hnone : job.configuration.patches = false)
    (hrun : (job.run.perform start).1 = .ok r) (hrecord : OnRecord (job.run.perform start).2)
    (hnames : ∀ d ∈ job.drafts start, ∃ name, d.outputFile.fileName? = some name ∧
      (name, true) ∉ job.configuration.topNames) :
    job.KeepsRecipes start ↔ (job.drafts start).Pairwise fun d d' =>
      (job.run.perform start).2.files.sameFile d.outputFile d'.outputFile = false := by
  refine ⟨KeepsRecipes.apart, fun hapart => ⟨hapart, fun d hd => ?_⟩⟩
  have haccepted := emission_accepted hrun hd
  have hself := FileTree.sameFile_self (hrecord.recorded.isFile haccepted)
  refine (hrecord.recorded.read_iff haccepted).2 ?_
  obtain ⟨before, after, hsplit⟩ := List.append_of_mem hd
  rw [hsplit] at hapart
  rw [accepted_of_run hnone hrun, hsplit, List.map_append, List.map_cons, ← List.append_assoc, List.append_assoc,
    List.cons_append]
  refine lastContent?_of_later hself fun e he => ?_
  rcases List.mem_append.1 he with he | he
  · -- Another recipe has another file.
    obtain ⟨d', hd', rfl⟩ := List.mem_map.1 he
    rw [FileTree.sameFile_comm]
    exact (List.pairwise_cons.1 (List.pairwise_append.1 hapart).2.1).1 d' hd'
  · -- A file beside the recipes has another name.
    obtain ⟨file, hfile, rfl⟩ := List.mem_map.1 he
    obtain ⟨top, hasked, htop⟩ := fileName?_of_topContents hfile
    obtain ⟨name, hname, hfree⟩ := hnames d hd
    refine FileTree.sameFile_of_fileName?_ne htop hname ?_
    rintro rfl
    exact hfree hasked

/-- If no two accepted emissions go to one file, the recipes are kept. -/
private theorem keepsRecipes_of_pairwise (hrun : (job.run.perform start).1 = .ok r)
    (hrecord : OnRecord (job.run.perform start).2)
    (hdistinct : (job.run.perform start).2.accepted.Pairwise fun e e' =>
      (job.run.perform start).2.files.sameFile e.path e'.path = false) : job.KeepsRecipes start where
  apart := List.pairwise_map.1 (hdistinct.sublist (accepted_sublist hrun))
  held := by
    intro d hd
    have haccepted := emission_accepted hrun hd
    exact (hrecord.recorded.read_iff haccepted).2 (hrecord.recorded.lastContent?_of_pairwise hdistinct haccepted)

/-- A file that is named after a package has that name, in the directory of all recipes. -/
private theorem outputFile_of_named (hnaming : ∀ name, job.configuration.naming ≠ .fixed name)
    (hrun : (job.run.perform start).1 = .ok r) :
    ∃ directory : Path, ∀ d ∈ job.drafts start,
      d.outputFile = directory / job.configuration.fileName d.manifest.name ∧
      ('/' ∉ d.manifest.name.toList → d.outputFile.fileName? = some (job.configuration.fileName d.manifest.name)) := by
  obtain ⟨directory, hdirectory⟩ := Configuration.exists_commonDirectory hnaming
  refine ⟨directory, fun d hd => ?_⟩
  obtain ⟨path, u, v, v', hprepare, -, -⟩ := exists_turn hrun hd
  have hfile : d.outputFile = directory / job.configuration.fileName d.manifest.name :=
    (files_of_prepare hprepare).1.trans (Configuration.outputFile_of_some hdirectory)
  refine ⟨hfile, fun hslash => ?_⟩
  rw [hfile]
  exact Path.fileName?_join (Configuration.fileName_of_named hnaming hslash).1 directory

/-- Files that are named after packages differ just if their names do. -/
private theorem apart_iff_nodup (hnaming : ∀ name, job.configuration.naming ≠ .fixed name)
    (hrun : (job.run.perform start).1 = .ok r) (hrecord : OnRecord (job.run.perform start).2)
    (hslash : ∀ d ∈ job.drafts start, '/' ∉ d.manifest.name.toList) :
    ((job.drafts start).Pairwise fun d d' =>
      (job.run.perform start).2.files.sameFile d.outputFile d'.outputFile = false) ↔
      ((job.drafts start).map fun d => job.configuration.fileName d.manifest.name).Nodup := by
  obtain ⟨directory, hdirectory⟩ := outputFile_of_named hnaming hrun
  unfold List.Nodup
  rw [List.pairwise_map]
  refine List.Pairwise.iff_of_mem fun {d d'} hd hd' => ⟨fun hapart hname => ?_, fun hname => ?_⟩
  · have hsame : d'.outputFile = d.outputFile := by rw [(hdirectory d hd).1, (hdirectory d' hd').1, hname]
    have hself := FileTree.sameFile_self (hrecord.recorded.isFile (emission_accepted hrun hd))
    rw [hsame] at hapart
    exact Bool.false_ne_true (hapart.symm.trans hself)
  · exact FileTree.sameFile_of_fileName?_ne ((hdirectory d hd).2 (hslash d hd)) ((hdirectory d' hd').2 (hslash d' hd'))
      hname

/-- Let a run that writes return a report, where outside programs leave the files alone.  The tree holds ordinary files
that can be read and written, and directories; there are no links, devices or permissions in it.

* The recipe of each package that is reported was accepted, and its file holds what was accepted last for it.
* If no two accepted emissions go to one file, the recipes are kept.
* Without patches, if the files of the recipes are named unlike those beside them, the recipes are kept just if their
  files differ.
* If these files are named after the packages, they differ just if their names do. -/
theorem last_emission_counts (h : job.runner.Steady) (hmode : start.mode = .write) (hstart : start.emitted = [])
    (hrun : (job.run.perform start).1 = .ok r) :
    let c := job.configuration
    let w := (job.run.perform start).2
    r.packages = (job.drafts start).map Draft.package ∧
    (∀ d ∈ job.drafts start, d.emission ∈ w.accepted ∧ ∃ content, w.files.read d.outputFile = .ok content ∧
      lastContent? w.files w.accepted d.outputFile = some content) ∧
    ((w.accepted.Pairwise fun e e' => w.files.sameFile e.path e'.path = false) → job.KeepsRecipes start) ∧
    (c.patches = false →
      (∀ d ∈ job.drafts start, ∃ name, d.outputFile.fileName? = some name ∧ (name, true) ∉ c.topNames) →
      (job.KeepsRecipes start ↔
        (job.drafts start).Pairwise fun d d' => w.files.sameFile d.outputFile d'.outputFile = false)) ∧
    (c.patches = false → (∀ name, c.naming ≠ .fixed name) →
      (∀ d ∈ job.drafts start, '/' ∉ d.manifest.name.toList ∧ (c.fileName d.manifest.name, true) ∉ c.topNames) →
      (job.KeepsRecipes start ↔ ((job.drafts start).map fun d => c.fileName d.manifest.name).Nodup)) := by
  intro c w
  have hrecord := onRecord_of_run h hrun hmode hstart
  refine ⟨packages_of_run hrun, fun d hd => ?_, keepsRecipes_of_pairwise hrun hrecord, ?_, ?_⟩
  · have haccepted := emission_accepted hrun hd
    obtain ⟨content, hread, hlast⟩ := hrecord.recorded d.emission haccepted
    exact ⟨haccepted, content, hread, hlast⟩
  · exact fun hnone hnames => keepsRecipes_iff_apart hnone hrun hrecord hnames
  · intro hnone hnaming hplain
    obtain ⟨directory, hdirectory⟩ := outputFile_of_named hnaming hrun
    have hnames : ∀ d ∈ job.drafts start, ∃ name, d.outputFile.fileName? = some name ∧ (name, true) ∉ c.topNames :=
      fun d hd => ⟨_, (hdirectory d hd).2 (hplain d hd).1, (hplain d hd).2⟩
    rw [keepsRecipes_iff_apart hnone hrun hrecord hnames]
    exact apart_iff_nodup hnaming hrun hrecord fun d hd => (hplain d hd).1

/-- Two packages with their recipes in one directory. -/
def inOneDirectory (naming : FileNaming) : Job Unit where
  configuration := {
    sources := [⟨"a/package.xml"⟩, ⟨"b/package.xml"⟩], naming, directory := some ⟨"out"⟩, shell := false,
    default := some false }
  database := .nothing
  runner := .empty
  year := "2024"

/-- The recipes are kept if they are named after their packages. -/
theorem recipes_of_two_packages : (inOneDirectory .package).KeepsRecipes (World.fresh () twoManifests .write none) := by
  have hwrite :
      ((inOneDirectory .package).run.perform (World.fresh () twoManifests .write none)).1.toOption.map (·.failed) =
        some [] ∧
      (∀ d ∈ (inOneDirectory .package).drafts (World.fresh () twoManifests .write none),
        '/' ∉ d.manifest.name.toList ∧
        ((inOneDirectory .package).configuration.fileName d.manifest.name, true) ∉
          (inOneDirectory .package).configuration.topNames) ∧
      (((inOneDirectory .package).drafts (World.fresh () twoManifests .write none)).map fun d =>
        (inOneDirectory .package).configuration.fileName d.manifest.name).Nodup := by
    decide +kernel
  obtain ⟨hreport, hplain, hdistinct⟩ := hwrite
  obtain ⟨r, hrun, -⟩ := exists_of_toOption hreport
  obtain ⟨-, -, -, -, hkeeps⟩ := last_emission_counts Runner.steady_empty rfl rfl hrun
  exact (hkeeps rfl (fun _ => nofun) hplain).2 hdistinct

/-! ### Recipes that are lost -/

/-- A package that is named like a file beside the recipes. -/
def shadowed : Job Unit where
  configuration := { sources := [⟨"pkg/package.xml"⟩], naming := .package, shell := false, default := some false }
  database := .nothing
  runner := .empty
  year := "2024"

def shadowedManifest : FileTree where
  entries := ⟨[
    (["pkg"], .directory),
    (["pkg", "package.xml"], .file "<package><name>overlay</name><version>1</version></package>".toUTF8 false)]⟩
  home := []

/-- A configuration that is accepted may give one file to two packages, or write another file over a recipe. -/
theorem recipes_overwritten :
    (¬ ∀ (job : Job Unit) (files : FileTree) (r : Report), job.configuration.validate = .ok () →
      job.configuration.checkReference = .ok () → job.configuration.sources.Nodup →
      (job.run.perform (World.fresh () files .write none)).1 = .ok r → (r.packages.map (·.outputFile)).Nodup) ∧
    ¬ ∀ (job : Job Unit) (files : FileTree) (r : Report), job.configuration.validate = .ok () →
      job.configuration.checkReference = .ok () →
      (job.run.perform (World.fresh () files .write none)).1 = .ok r →
      ∀ d ∈ job.drafts (World.fresh () files .write none),
        (job.run.perform (World.fresh () files .write none)).2.files.read d.outputFile = .ok d.text.toUTF8 := by
  constructor
  · intro hclaim
    have hfiles : ((inOneDirectory (.fixed "package.nix")).run.perform
        (World.fresh () twoManifests .write none)).1.toOption.map (·.packages.map (·.outputFile)) =
          some [⟨"out/package.nix"⟩, ⟨"out/package.nix"⟩] := by
      decide +kernel
    obtain ⟨r, hr, hsame⟩ := exists_of_toOption hfiles
    have hnodup := hclaim (inOneDirectory (.fixed "package.nix")) twoManifests r rfl rfl (by decide) hr
    rw [hsame] at hnodup
    exact absurd hnodup (by decide)
  · intro hclaim
    have hreport : (shadowed.run.perform (World.fresh () shadowedManifest .write none)).1.toOption.map (·.failed) =
        some [] := by
      decide +kernel
    obtain ⟨r, hr, -⟩ := exists_of_toOption hreport
    have hheld := hclaim shadowed shadowedManifest r rfl rfl hr
    exact absurd hheld (by decide +kernel)

end Job

end RosRecipes
