import RosRecipes.Proofs.Generation.Independence
import RosRecipes.Proofs.Generation.Keeping
import RosRecipes.Proofs.Provenance.Remembering

/-!
# Manifests that fail early

A package emits its files last, and only emissions fail because of a file that is emitted (`isOutput_of_emitDraft`).  So
with any other error it has failed before, while it was prepared, and then nothing is left of it but what is worth
keeping:

* `quiet_prepare`: nothing is emitted, compared or claimed meanwhile,
* `gained_prepare`: each cache has gained at most one result.

* `nothing_left_behind` puts this together.
-/

namespace RosRecipes

open Action (Confined)

variable {σ α β : Type}

/-- Is the error about a file that is emitted?  It cannot be written, or its place has been claimed. -/
def Error.isOutput : Error → Bool
  | .write .. => true
  | .patchCollision _ => true
  | _ => false

/-- Programs stay steady when their answers are noted. -/
theorem Runner.Steady.recorded {runner : Runner σ} (h : runner.Steady) : runner.recorded.Steady where
  answer c s t s' t' := h.answer c s.1 t s'.1 t'
  leaves c s t := h.leaves c s.1 t
  patches :=
    { answer := fun r commit s t s' t' => h.patches.answer r commit s.1 t s'.1 t'
      outside := fun r commit s t => h.patches.outside r commit s.1 t
      inside := fun r commit s t s' t' => h.patches.inside r commit s.1 t s'.1 t'
      directory := fun r commit s t => h.patches.directory r commit s.1 t
      reported := fun r commit s t => h.patches.reported r commit s.1 t }

namespace Job

variable {job : Job σ} {path : Path}

/-! ### Emitting -/

/-- Files that are emitted fail only because of themselves. -/
private theorem isOutput_of_emitDraft (d : Draft) :
    Confined (fun _ => True) (·.isOutput = true) (emitDraft d : Action σ GeneratedPackage) := by
  have hemit : ∀ p content,
      Confined (fun _ => True) (·.isOutput = true) (Action.emit p content : Action σ Unit) := by
    refine fun p content => confined_emit (fun _ _ _ _ => trivial) fun e he => ?_
    obtain ⟨place, fault, rfl, -⟩ := he
    rfl
  have hpatch : ∀ directory q,
      Confined (fun _ => True) (·.isOutput = true) (emitPatch directory q : Action σ Unit) := by
    refine fun directory q => .get fun w _ => ?_
    cases w.patches.claim? (directory / q.fileName) with
    | none => exact .throw rfl
    | some patches => exact .bind (.modify fun _ _ => trivial) fun _ => hemit _ _
  have hannounce : Confined (fun _ => True) (·.isOutput = true) (announce d : Action σ Unit) := by
    refine .get fun w _ => ?_
    cases w.mode with
    | write => exact .remark (fun _ _ _ => trivial) _ _
    | compare => exact .pure ()
  exact (hemit _ _).bind fun _ => (Confined.forM (hpatch _) d.patches).bind fun _ => hannounce.bind fun _ => .pure _

/-- With any other error it is the preparation that has failed. -/
private theorem prepare_of_package {w w' : World σ} {e : Error} (h : (job.package path).perform w = (.error e, w'))
    (hearly : e.isOutput = false) : (job.prepare path).perform w = (.error e, w') := by
  rcases Action.bind_error_cases h with hprepare | ⟨d, v, -, hdraft⟩
  · exact hprepare
  · have houtput : e.isOutput = true := (isOutput_of_emitDraft d v trivial).2 e (congrArg Prod.fst hdraft)
    rw [hearly] at houtput
    cases houtput

/-! ### Preparing -/

/-- Nothing is emitted, compared or claimed while a package is prepared. -/
theorem quiet_prepare (job : Job σ) (path : Path) (w : World σ) :
    ((job.prepare path).perform w).2.SameOutput w ∧ ((job.prepare path).perform w).2.printed = w.printed := by
  let Quiet (v : World σ) := v.SameOutput w ∧ v.printed = w.printed
  have hconfines : job.runner.Confines Quiet fun _ => True :=
    { call := fun c => .call (fun _ _ _ hv => ⟨{ hv.1 with }, hv.2⟩) fun _ _ _ _ => trivial
      minor := fun _ _ => trivial
      files := fun _ _ hv => ⟨{ hv.1 with }, hv.2⟩
      log := fun _ _ hv => ⟨{ hv.1 with }, hv.2⟩
      runCache := fun _ _ hv => ⟨{ hv.1 with }, hv.2⟩
      storedCache := fun _ _ hv => ⟨{ hv.1 with }, hv.2⟩ }
  have hlookup := hconfines.others.lookup (fun _ _ hv => ⟨{ hv.1 with }, hv.2⟩) job.database
  exact (confined_prepare hconfines hlookup path w ⟨.refl w, rfl⟩).1

private theorem confinesOthers_talked (runner : Runner σ) (w : World (σ × List Exchange)) :
    runner.recorded.ConfinesOthers (World.Talked · w) fun _ => True where
  call c _ v hv := by
    refine ⟨?_, fun _ _ => trivial⟩
    have hcalled : ((Action.call runner.recorded c).perform v).2.Talked v := by
      refine ⟨?_, ?_, _, (exchanges_call runner c v).symm⟩
      · rw [Action.perform_call]
      · rw [Action.perform_call]
    exact hcalled.trans hv
  minor _ _ := trivial
  files _ _ hv := ⟨hv.runCache, hv.storedCache, hv.exchanges⟩
  log _ _ hv := ⟨hv.runCache, hv.storedCache, hv.exchanges⟩

/-- What follows a step that remembers nothing. -/
private theorem gained_bind {a : Action (σ × List Exchange) α} {f : α → Action (σ × List Exchange) β}
    (ha : ∀ w, (a.perform w).2.Talked w) (hf : ∀ x w, ∃ new, World.Gained new ((f x).perform w).2 w)
    (w : World (σ × List Exchange)) : ∃ new, World.Gained new ((a >>= f).perform w).2 w := by
  have htalked := ha w
  rw [Action.perform_bind]
  rcases hperform : a.perform w with ⟨e | x, v⟩ <;> rw [hperform] at htalked
  · exact htalked.gained
  · obtain ⟨new, hgained⟩ := hf x v
    exact hgained.amid htalked (.refl _)

/-- What is followed by a step that remembers nothing. -/
private theorem gained_bind_talked {a : Action (σ × List Exchange) α} {f : α → Action (σ × List Exchange) β}
    (ha : ∀ w, ∃ new, World.Gained new (a.perform w).2 w) (hf : ∀ x w, ((f x).perform w).2.Talked w)
    (w : World (σ × List Exchange)) : ∃ new, World.Gained new ((a >>= f).perform w).2 w := by
  obtain ⟨new, hgained⟩ := ha w
  rw [Action.perform_bind]
  rcases hperform : a.perform w with ⟨e | x, v⟩ <;> rw [hperform] at hgained
  · exact ⟨new, hgained⟩
  · exact hgained.amid (.refl w) (hf x v)

/-- Each cache has gained at most one result when a package has been prepared, or has failed. -/
theorem gained_prepare (job : Job σ) (path : Path) (w : World (σ × List Exchange)) :
    ∃ new, World.Gained new ((job.recorded.prepare path).perform w).2 w := by
  have hothers : ∀ w, job.recorded.runner.ConfinesOthers (World.Talked · w) fun _ => True :=
    confinesOthers_talked job.runner
  have hlookup : ∀ w name, Confined (World.Talked · w) (fun _ => True)
      (job.recorded.database.lookup job.recorded.runner name Rosdep.targetSystem) :=
    fun w => (hothers w).lookup (fun _ _ hv => ⟨hv.runCache, hv.storedCache, hv.exchanges⟩) job.database
  have hsource : ∀ w, ∃ new, World.Gained new ((job.recorded.sourceOf path).perform w).2 w := by
    intro w
    unfold sourceOf
    dsimp only
    cases job.recorded.configuration.sourceParameter with
    | some name => exact (World.Talked.refl w).gained
    | none =>
      cases job.recorded.configuration.fetch with
      | true =>
        refine gained_bind_talked (Provenance.gained_resolve job.runner _ _) (fun p v => ?_) w
        exact World.Talked.refl v
      | false => exact (World.Talked.refl w).gained
  have htalked : ∀ {α : Type} {a : Action (σ × List Exchange) α},
      (∀ w, Confined (World.Talked · w) (fun _ => True) a) → ∀ w, (a.perform w).2.Talked w :=
    fun h w => (h w w (.refl w)).1
  refine gained_bind (htalked fun w => confined_readManifest (hothers w) path) (fun manifest => ?_) w
  refine gained_bind (htalked fun w => confined_inputsOf (hothers w) (hlookup w) manifest) fun inputs => ?_
  refine gained_bind_talked hsource fun source => htalked fun w => ?_
  exact (confined_recipeText (hothers w) _).bind fun _ => .pure _

/-- A manifest that fails before its files are emitted leaves nothing behind: no file is written or compared, none is
out of date for it, and no place is claimed.  If programs leave the files alone, all files are as before.  Each cache
has at most one result more, or another one under the same key, which was fetched meanwhile; in the cache of the run it
may be a stored one for the newest revision that the remote knows. -/
theorem nothing_left_behind (job : Job σ) (path : Path) {w w' : World (σ × List Exchange)} {e : Error}
    (hfails : (job.recorded.package path).perform w = (.error e, w')) (hearly : e.isOutput = false) :
    w'.SameOutput w ∧ w'.printed = w.printed ∧ (job.runner.Steady → w'.files.Same w.files) ∧
      ∃ new, World.Gained new w' w := by
  have hprepare := congrArg Prod.snd (prepare_of_package hfails hearly)
  have hquiet := quiet_prepare job.recorded path w
  have hgained := gained_prepare job path w
  rw [hprepare] at hquiet hgained
  refine ⟨hquiet.1, hquiet.2, fun hsteady => ?_, hgained⟩
  have hrecorded : job.recorded.runner.Steady := hsteady.recorded
  have hbeside := beside_prepare hrecorded path w
  rw [hprepare] at hbeside
  exact hbeside.files

/-- A package of a repository whose local commits cannot be listed. -/
def unlisted : Job Unit where
  configuration := { sources := [⟨"a/package.xml"⟩], fetch := true, patches := true }
  database := .nothing
  runner := .ofAnswer oneCommit
  year := "2024"

/-- A run that has done something before, with a result of an older revision in the stored cache. -/
def unlistedWorld : World (Unit × List Exchange) where
  tools := ((), [])
  files := twoManifests
  storedCache := some { path := ⟨"/cache.json"⟩, entries := ⟨[("https://example.org/ws.git", ⟨"older", "old"⟩)]⟩ }
  patches := ⟨[[.name "0001-Fix.patch"]]⟩
  mode := .compare
  outOfDate := [⟨"package.nix"⟩]

/-- The package fails after its revision was fetched; what was fetched is kept, and nothing else. -/
theorem nothing_left_of_unlisted :
    ∃ e w', (unlisted.recorded.package ⟨"a/package.xml"⟩).perform unlistedWorld = (.error e, w') ∧
      e.isOutput = false ∧
      w'.runCache.entries.entries = [([.root, .name "ws"], ⟨"base", "whole"⟩)] ∧
      w'.storedCache.map (·.entries.entries) = some [("https://example.org/ws.git", ⟨"base", "whole"⟩)] ∧
      w'.SameOutput unlistedWorld ∧ w'.files.Same unlistedWorld.files ∧
      ∃ new, World.Gained new w' unlistedWorld := by
  have hrun :
      (match ((unlisted.recorded.package ⟨"a/package.xml"⟩).perform unlistedWorld).1 with
        | .error e => e.isOutput
        | .ok _ => true) = false ∧
      ((unlisted.recorded.package ⟨"a/package.xml"⟩).perform unlistedWorld).2.runCache.entries.entries =
        [([.root, .name "ws"], ⟨"base", "whole"⟩)] ∧
      ((unlisted.recorded.package ⟨"a/package.xml"⟩).perform unlistedWorld).2.storedCache.map (·.entries.entries) =
        some [("https://example.org/ws.git", ⟨"base", "whole"⟩)] := by
    decide +kernel
  rcases hafter : (unlisted.recorded.package ⟨"a/package.xml"⟩).perform unlistedWorld with ⟨e | p, w'⟩
  · rw [hafter] at hrun
    obtain ⟨hearly, hrunCache, hstoredCache⟩ := hrun
    obtain ⟨hsame, -, hfiles, hgained⟩ := nothing_left_behind unlisted ⟨"a/package.xml"⟩ hafter hearly
    exact ⟨e, w', rfl, hearly, hrunCache, hstoredCache, hsame, hfiles steady_oneCommit, hgained⟩
  · rw [hafter] at hrun
    cases hrun.1

end Job

end RosRecipes
