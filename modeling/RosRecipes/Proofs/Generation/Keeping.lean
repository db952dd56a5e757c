import RosRecipes.Program
import RosRecipes.Proofs.Generation.Turns
import RosRecipes.Proofs.Provenance.Fetching
import RosRecipes.Proofs.Provenance.Ledger
import RosRecipes.Proofs.Provenance.Storage

/-!
# What is kept between runs

A call loads the stored cache, runs, and saves the cache, whatever the outcome of the run is (`Program.perform_run`).
The run keeps the account of the cache (`Job.accounted_run`), and the save writes it.

* `fetches_are_kept`: so nothing that was fetched is lost.
-/

namespace RosRecipes

open Action (Confined)

variable {σ : Type}

namespace Job

def recorded (job : Job σ) : Job (σ × List Exchange) where
  configuration := job.configuration
  database := job.database
  runner := job.runner.recorded
  year := job.year

variable {job : Job σ} {start : StoredCache}

private theorem confinesOthers_accounted (job : Job σ) (start : StoredCache) (perPackage : Bool) :
    job.runner.recorded.ConfinesOthers (World.Accounted perPackage start) fun _ => True where
  call c hother w hw := by
    have hexchanges := exchanges_call job.runner c w
    have hnothing : Exchange.fetched? ⟨c, (job.runner.run c w.tools.1 w.files).1⟩ = none := by
      rw [Exchange.fetched?, Command.fetchedFrom?_of_program hother]
      rfl
    refine ⟨hw.of_exchanges ?_ _ hexchanges (List.forall_mem_singleton.2 hnothing), fun _ _ => trivial⟩
    rw [Action.perform_call]
  minor _ _ := trivial
  files _ _ hw := hw
  log _ _ hw := hw

private theorem kept_accounted : job.recorded.Kept (World.Accounted job.configuration.perPackage start) where
  prepare := by
    have hothers := confinesOthers_accounted job start job.configuration.perPackage
    refine confined_prepare_of_resolve hothers (fun name => ?_) fun directory => ?_
    · exact hothers.lookup (fun _ _ hw => hw) _ name
    · exact Provenance.accounted_resolve directory _ rfl
  emit p content := by
    refine confined_emit (fun w w' hw h => ?_) fun _ _ => trivial
    have hexchanges : w'.exchanges = w.exchanges := congrArg Prod.snd h.tools
    exact hw.of_exchanges h.storedCache [] (by rw [hexchanges, List.append_nil]) nofun
  claim _ _ hw := hw
  remark _ _ hw := hw

/-- A run keeps the account of the stored cache, also when it is given up. -/
theorem accounted_run (job : Job σ) (start : StoredCache) :
    Confined (World.Accounted job.configuration.perPackage start) (fun _ => True) job.recorded.run :=
  kept_accounted.whole fun _ _ hw => hw

end Job

/-! ### Calls -/

namespace Program

variable {s : Surroundings σ} {c : Configuration} {path : Path} {database : Rosdep.Database} {w w₁ : World σ}

def perform {α : Type} (step : Step σ α) (w : World σ) : Except Failure α × World σ := step.run.run w

theorem perform_bind {α β : Type} (a : Step σ α) (f : α → Step σ β) (w : World σ) :
    perform (a >>= f) w =
      match perform a w with
      | (.ok x, w') => perform (f x) w'
      | (.error e, w') => (.error e, w') := by
  unfold perform ExceptT.run StateT.run
  simp only [bind, ExceptT.bind, ExceptT.mk, StateT.bind, ExceptT.bindCont]
  rcases a w with ⟨_ | _, _⟩ <;> rfl

theorem perform_attempting {α : Type} (attempted : Option String) (a : Action σ α) (w : World σ) :
    perform (attempting attempted a) w = ((a.perform w).1.mapError (⟨attempted, ·⟩), (a.perform w).2) := rfl

theorem perform_attempt {α : Type} (a : Action σ α) (w : World σ) :
    perform (attempting none (Action.attempt a)) w = (.ok (a.perform w).1, (a.perform w).2) := rfl

theorem perform_modify (f : World σ → World σ) (w : World σ) :
    perform (modify f : Step σ PUnit) w = (.ok ⟨⟩, f w) := rfl

/-- What a call does before it runs. -/
def opening (s : Surroundings σ) (c : Configuration) : Step σ Rosdep.Database := do
  attempting none (Action.ofExcept c.validate)
  attempting none (Action.ofExcept c.checkReference)
  openDatabase s c

/-- The world in which a run starts after its cache has been loaded. -/
def startOf (c : Configuration) (path : Path) (w : World σ) : World σ :=
  let loaded := (StoredCache.load path).perform w
  { loaded.2 with
    runCache := {}, storedCache := loaded.1.toOption, patches := {}, mode := c.mode, outOfDate := [] }

def saving : String := "Failed to save git cache"

/-- The rest of a call. -/
private def generating (s : Surroundings σ) (c : Configuration) (database : Rosdep.Database) : Step σ Nat := do
  let storedCache ← attempting none (c.cachePath.mapM StoredCache.load)
  modify fun w => { w with runCache := {}, storedCache, patches := {}, mode := c.mode, outOfDate := [] }
  let report ← attempting none (Action.attempt (Job.run ⟨c, database, s.runner, s.year⟩))
  attempting saving Action.finish
  return (← attempting none (Action.ofExcept report)).exitCode

private theorem run_eq (s : Surroundings σ) (c : Configuration) : run s c = opening s c >>= generating s c := by
  unfold run opening
  simp only [bind_assoc]
  rfl

/-- The cache is saved after the run, whatever its outcome is. -/
theorem perform_run (hpath : c.cachePath = some path) (hopening : perform (opening s c) w = (.ok database, w₁)) :
    let job : Job σ := ⟨c, database, s.runner, s.year⟩
    let after := job.run.perform (startOf c path w₁)
    perform (run s c) w =
      match Action.finish.perform after.2 with
      | (.ok _, w') => ((after.1.map Report.exitCode).mapError (⟨none, ·⟩), w')
      | (.error e, w') => (.error ⟨some saving, e⟩, w') := by
  intro job after
  obtain ⟨log, hload⟩ := StoredCache.perform_load path w₁
  have hloaded : perform (attempting none (c.cachePath.mapM StoredCache.load)) w₁ =
      (.ok (some { path, entries := StoredCache.entriesIn w₁.files path }), { w₁ with log }) := by
    have hmap : (c.cachePath.mapM StoredCache.load : Action σ _).perform w₁ =
        (.ok (some { path, entries := StoredCache.entriesIn w₁.files path }), { w₁ with log }) := by
      rw [hpath]
      change (StoredCache.load path >>= fun c => pure (some c)).perform w₁ = _
      rw [Action.perform_bind, hload]
      rfl
    rw [perform_attempting, hmap]
    rfl
  have hstart : startOf c path w₁ = { w₁ with
      log
      runCache := {}
      storedCache := some { path, entries := StoredCache.entriesIn w₁.files path }
      patches := {}
      mode := c.mode
      outOfDate := [] } := by
    unfold startOf
    rw [hload]
    rfl
  rw [run_eq, perform_bind, hopening]
  dsimp only
  rw [generating, perform_bind, hloaded]
  dsimp only
  rw [perform_bind, perform_modify]
  dsimp only
  rw [← hstart, perform_bind, perform_attempt]
  dsimp only
  rw [perform_bind, perform_attempting]
  rcases Action.finish.perform after.2 with ⟨e | ⟨⟩, w'⟩
  · rfl
  · dsimp only [Except.mapError]
    rw [perform_bind, perform_attempting, Action.perform_ofExcept]
    cases after.1 <;> rfl

/-- A run whose cache could be saved leaves a file with the last results, and with all other entries from before. -/
private theorem loads_of_run {s : Surroundings σ} {w w₁ w' : World (σ × List Exchange)} {outcome : Except Failure Nat}
    (hpath : c.cachePath = some path)
    (hopening : perform (opening { s with runner := s.runner.recorded } c) w = (.ok database, w₁))
    (hnothing : w₁.exchanges = [])
    (huntouched :
      ((Job.recorded ⟨c, database, s.runner, s.year⟩).run.perform (startOf c path w₁)).2.files.readText path =
        w₁.files.readText path)
    (hrun : perform (run { s with runner := s.runner.recorded } c) w = (outcome, w'))
    (hsaved : ∀ e, outcome ≠ .error ⟨some saving, e⟩) :
    StoredCache.Loads path (fun key => ((Ledger.of c.perPackage w'.exchanges).results.get? key).or
      ((StoredCache.entriesIn w₁.files path).get? key)) w' := by
  obtain ⟨log, hload⟩ := StoredCache.perform_load path w₁
  let start : StoredCache := { path, entries := StoredCache.entriesIn w₁.files path }
  -- The run starts with an empty ledger, and with a cache that has nothing new in it.
  have hstart : (startOf c path w₁).Accounted c.perPackage start := by
    refine ⟨start, ?_, rfl, fun key => ?_, fun _ => rfl⟩
    · unfold startOf
      rw [hload]
      rfl
    · have hexchanges : (startOf c path w₁).exchanges = [] := by
        unfold startOf
        rw [hload]
        exact hnothing
      rw [hexchanges]
      rfl
  have hafter := (Job.accounted_run ⟨c, database, s.runner, s.year⟩ start _ hstart).1
  have hperform := (perform_run hpath hopening).symm.trans hrun
  have hjob : Job.recorded ⟨c, database, s.runner, s.year⟩ = ⟨c, database, s.runner.recorded, s.year⟩ := rfl
  rw [hjob] at hafter huntouched
  dsimp only at hperform hafter
  generalize (Job.run ⟨c, database, s.runner.recorded, s.year⟩).perform (startOf c path w₁) = after
    at hafter huntouched hperform
  obtain ⟨cache, hcache, hcachePath, hentries, hclean⟩ := hafter
  have hfinished := finished_finish after.2
  generalize Action.finish.perform after.2 = finished at hfinished hperform
  rw [StoredCache.loads_iff]
  cases hfinished with
  | clean hunchanged =>
    -- Nothing is written, and nothing has been fetched.
    cases hperform
    intro key
    rw [← hentries, hclean (hunchanged cache hcache), StoredCache.entriesIn_of_readText huntouched]
  | failed cache' e files hcache' hdirty =>
    cases hperform
    exact absurd rfl (hsaved e)
  | saved cache' files hcache' hdirty hfile =>
    cases hcache.symm.trans hcache'
    cases hperform
    intro key
    exact (hcachePath ▸ hfile key).trans (hentries key)

/-- The stored cache and its file stay in step, and nothing that was fetched is lost.

* Whatever happens to a cache, one operation after the other: if there is nothing new in it, then its entries are loaded
  from its file; a save that fails leaves it as it was; and after a save that succeeds there is nothing new in it, and
  its entries are loaded from its file.
* A call with a cache, whose file nobody else touches during the run, may end with a report or with an error.  If the
  cache could be saved, then for each key the result of the last fetch is loaded from the file, and for all other keys
  what was loaded before. -/
theorem fetches_are_kept :
    (∀ w w' : World σ, w.storedCache = none → Relation.ReflTransGen StoredCache.Operation w w' →
      ∀ cache, w'.storedCache = some cache →
        (cache.dirty = false → StoredCache.Loads cache.path cache.entries.get? w') ∧
        (∀ e v, Action.finish.perform w' = (.error e, v) → v.storedCache = some cache) ∧
        (∀ v, Action.finish.perform w' = (.ok ⟨⟩, v) →
          v.storedCache = some { cache with dirty := false } ∧
            StoredCache.Loads cache.path cache.entries.get? v)) ∧
    ∀ (s : Surroundings σ) (c : Configuration) (path : Path) (database : Rosdep.Database)
      (w w₁ : World (σ × List Exchange)),
      let s' : Surroundings (σ × List Exchange) := { s with runner := s.runner.recorded }
      let job : Job (σ × List Exchange) := ⟨c, database, s'.runner, s.year⟩
      c.cachePath = some path → perform (opening s' c) w = (.ok database, w₁) → w₁.exchanges = [] →
      (job.run.perform (startOf c path w₁)).2.files.readText path = w₁.files.readText path →
      ∀ outcome w', perform (run s' c) w = (outcome, w') → (∀ e, outcome ≠ .error ⟨some saving, e⟩) →
        ∃ before, StoredCache.Loads path before w₁ ∧
          StoredCache.Loads path
            (fun key => ((Ledger.of c.perPackage w'.exchanges).results.get? key).or (before key)) w' := by
  refine ⟨fun w w' hnone hops cache hcache => ⟨?_, fun e v h => ?_, fun v h => ?_⟩, ?_⟩
  · exact fun hclean => StoredCache.loads_iff.2 (inStep_of_operations hnone hops cache hcache hclean)
  · have hv := storedCache_of_failed_finish (congrArg Prod.fst h)
    rw [h, hcache] at hv
    exact hv
  · have hv := storedCache_of_finish hcache (congrArg Prod.fst h)
    have hstep := (inStep_of_operations hnone hops).finish
    rw [h] at hv hstep
    exact ⟨hv, StoredCache.loads_iff.2 (hstep { cache with dirty := false } hv rfl)⟩
  · intro s c path database w w₁ s' job hpath hopening hnothing huntouched outcome w' hrun hsaved
    exact ⟨_, StoredCache.loads_iff.2 fun _ => rfl, loads_of_run hpath hopening hnothing huntouched hrun hsaved⟩

/-! ### One package -/

/-- A call for a package of a repository, with a cache. -/
def fetching : Configuration where
  sources := [⟨"/a/package.xml"⟩]
  fetch := true
  cachePath := some ⟨"/cache.json"⟩
  shell := false
  default := some false
  rules := .nowhere

/-- The cache has a result of another repository. -/
def cachedFiles : FileTree where
  entries := ⟨[
    (["a"], .directory),
    (["a", "package.xml"], .file "<package><name>a</name><version>1</version></package>".toUTF8 false),
    (["cache.json"], .file "\x7b\"other\":[\"zero\",\"hash\"]\x7d".toUTF8 false)]⟩
  home := []

def fetchingWorld : World (Unit × List Exchange) where
  tools := ((), [])
  files := cachedFiles

def fetchingSurroundings : Surroundings Unit where
  runner := Provenance.twoRepositories
  locate _ _ := none
  cache := none
  year := "2024"

private theorem perform_opening_fetching :
    perform (opening { fetchingSurroundings with runner := fetchingSurroundings.runner.recorded } fetching)
      fetchingWorld = (.ok .nothing, fetchingWorld) := rfl

private theorem ok_of_toOption {x : Except FileFault String} {text : String} (h : x.toOption = some text) :
    x = .ok text := by
  cases x with
  | error => cases h
  | ok => exact congrArg Except.ok (Option.some.inj h)

private theorem readText_after_fetching :
    ((Job.run ⟨fetching, .nothing, fetchingSurroundings.runner.recorded, fetchingSurroundings.year⟩).perform
        (startOf fetching ⟨"/cache.json"⟩ fetchingWorld)).2.files.readText ⟨"/cache.json"⟩ =
      fetchingWorld.files.readText ⟨"/cache.json"⟩ := by
  have hbefore : fetchingWorld.files.readText ⟨"/cache.json"⟩ = .ok "\x7b\"other\":[\"zero\",\"hash\"]\x7d" :=
    ok_of_toOption (by decide +kernel)
  rw [hbefore]
  exact ok_of_toOption (by decide +kernel)

/-- After the call the cache has the results of both repositories. -/
theorem fetches_are_kept_of_one :
    let s : Surroundings (Unit × List Exchange) :=
      { fetchingSurroundings with runner := fetchingSurroundings.runner.recorded }
    let after := perform (run s fetching) fetchingWorld
    after.1.toOption = some 0 ∧
      (Ledger.of false after.2.exchanges).results.entries = [("https://example.org/ws.git", ⟨"one", "hash"⟩)] ∧
      ∃ before, StoredCache.Loads ⟨"/cache.json"⟩ before fetchingWorld ∧
        StoredCache.Loads ⟨"/cache.json"⟩
          (fun key => ((Ledger.of false after.2.exchanges).results.get? key).or (before key)) after.2 := by
  intro s after
  have hrun : after.1.toOption = some 0 ∧
      (Ledger.of false after.2.exchanges).results.entries = [("https://example.org/ws.git", ⟨"one", "hash"⟩)] := by
    decide +kernel
  have hkept := (fetches_are_kept (σ := Unit)).2 fetchingSurroundings fetching ⟨"/cache.json"⟩ .nothing
    fetchingWorld fetchingWorld rfl perform_opening_fetching rfl
  -- the arguments are given one after the other, since otherwise the whole run would be evaluated to compare them
  dsimp only at hkept
  have hloads := hkept readText_after_fetching _ _ (Prod.eta _).symm
  refine ⟨hrun.1, hrun.2, hloads fun e he => ?_⟩
  have hok := hrun.1
  rw [show after.1 = _ from he] at hok
  cases hok

end Program

end RosRecipes
