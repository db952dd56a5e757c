import RosRecipes.Proofs.Generation.Failures

/-!
# What becomes of each manifest

A run comes to each manifest in order, and there is one outcome for each: a package or an error, and the files that
were emitted meanwhile (`Job.outcomes`).

* The report of a run accounts for each outcome once: packages are reported, and the manifests of errors
  (`accounts_of_run`).
* A run fails only with a collision of patches, or after all manifests with a file beside the recipes
  (`collision_or_beside`).
-/

namespace RosRecipes

variable {σ : Type} {w w' : World σ}

/-- What becomes of a manifest when its turn has come. -/
structure Outcome where
  path : Path
  result : Except Error GeneratedPackage
  emitted : List Emission

/-- The report has just the packages of these outcomes, and the manifests of those that are errors, in order; and no
error ends the run. -/
structure Report.Accounts (r : Report) (outcomes : List Outcome) : Prop where
  packages : r.packages = outcomes.filterMap (·.result.toOption)
  failed : r.failed = (outcomes.filter (!·.result.isOk)).map (·.path)
  minor : ∀ o ∈ outcomes, ∀ e, o.result = .error e → e.isFatal = false

namespace Report.Accounts

variable {r : Report} {outcomes : List Outcome} {o : Outcome}

theorem package {p : GeneratedPackage} (h : r.Accounts outcomes) (ho : o.result = .ok p) :
    ({ r with packages := r.packages ++ [p] } : Report).Accounts (outcomes ++ [o]) := by
  refine ⟨?_, ?_, fun o' ho' e he => ?_⟩
  · simp [h.packages, ho, Except.toOption]
  · simp [h.failed, ho, Except.isOk, Except.toBool]
  · rcases List.mem_append.1 ho' with hmem | hmem
    · exact h.minor o' hmem e he
    · rw [List.mem_singleton.1 hmem, ho] at he
      cases he

theorem failure {e : Error} (h : r.Accounts outcomes) (ho : o.result = .error e) (hminor : e.isFatal = false) :
    ({ r with failed := r.failed ++ [o.path] } : Report).Accounts (outcomes ++ [o]) := by
  refine ⟨?_, ?_, fun o' ho' e' he => ?_⟩
  · simp [h.packages, ho, Except.toOption]
  · simp [h.failed, ho, Except.isOk, Except.toBool]
  · rcases List.mem_append.1 ho' with hmem | hmem
    · exact h.minor o' hmem e' he
    · rw [List.mem_singleton.1 hmem, ho] at he
      cases he
      exact hminor

end Report.Accounts

namespace Job

variable {job : Job σ}

/-- What becomes of a manifest whose turn comes in a world. -/
def outcome (job : Job σ) (path : Path) (w : World σ) : Outcome where
  path
  result := ((job.package path).perform w).1
  emitted := ((job.package path).perform w).2.emitted.drop w.emitted.length

/-- What becomes of some manifests, up to an error that ends the run. -/
def outcomesFrom (job : Job σ) : List Path → Report → World σ → List Outcome
  | [], _, _ => []
  | path :: sources, r, w =>
    job.outcome path w ::
      match (job.addPackage r path).perform w with
      | (.ok r', w') => job.outcomesFrom sources r' w'
      | (.error _, _) => []

/-- What becomes of the manifests of a run. -/
def outcomes (job : Job σ) (start : World σ) : List Outcome :=
  job.outcomesFrom job.configuration.sources {} { start with answers := ∅ }

/-! ### Reports -/

/-- A manifest is reported with its package, or as failed. -/
theorem ok_of_addPackage {r r' : Report} {path : Path} (h : (job.addPackage r path).perform w = (.ok r', w')) :
    (∃ p, ((job.package path).perform w).1 = .ok p ∧ r' = { r with packages := r.packages ++ [p] }) ∨
    ∃ e, ((job.package path).perform w).1 = .error e ∧ e.isFatal = false ∧
      r' = { r with failed := r.failed ++ [path] } := by
  rw [perform_addPackage] at h
  rcases hpackage : (job.package path).perform w with ⟨e | p, v⟩
  · rw [hpackage] at h
    dsimp only at h
    by_cases hfatal : e.isFatal = true
    · rw [if_pos hfatal] at h
      cases h
    · rw [if_neg hfatal] at h
      cases h
      exact .inr ⟨e, rfl, by simpa using hfatal, rfl⟩
  · rw [hpackage] at h
    cases h
    exact .inl ⟨p, rfl, rfl⟩

/-- Nothing happens to a manifest that is reported but to its package; the rest is remarks. -/
theorem world_of_addPackage {r r' : Report} {path : Path} (h : (job.addPackage r path).perform w = (.ok r', w')) :
    ∃ log, w' = { ((job.package path).perform w).2 with log } := by
  rw [perform_addPackage] at h
  rcases hpackage : (job.package path).perform w with ⟨e | p, v⟩
  · rw [hpackage] at h
    dsimp only at h
    by_cases hfatal : e.isFatal = true
    · rw [if_pos hfatal] at h
      cases h
    · rw [if_neg hfatal] at h
      cases h
      exact ⟨_, rfl⟩
  · rw [hpackage] at h
    cases h
    exact ⟨w'.log, rfl⟩

private theorem paths_sources {sources : List Path} {r r' : Report}
    (h : (sources.foldlM job.addPackage r).perform w = (.ok r', w')) :
    (job.outcomesFrom sources r w).map (·.path) = sources := by
  induction sources generalizing r w with
  | nil => rfl
  | cons path sources ih =>
    rw [List.foldlM_cons] at h
    obtain ⟨r₁, v, hpath, hrest⟩ := Action.bind_ok_cases h
    unfold outcomesFrom
    rw [hpath, List.map_cons]
    exact congrArg (path :: ·) (ih hrest)

/-- Outcomes are added to a report that accounts for those before. -/
private theorem accounts_sources {sources : List Path} {r r' : Report} {before : List Outcome}
    (h : (sources.foldlM job.addPackage r).perform w = (.ok r', w')) (hbefore : r.Accounts before) :
    r'.Accounts (before ++ job.outcomesFrom sources r w) := by
  induction sources generalizing r w before with
  | nil =>
    cases h
    rw [outcomesFrom, List.append_nil]
    exact hbefore
  | cons path sources ih =>
    rw [List.foldlM_cons] at h
    obtain ⟨r₁, v, hpath, hrest⟩ := Action.bind_ok_cases h
    have hone : r₁.Accounts (before ++ [job.outcome path w]) := by
      rcases ok_of_addPackage hpath with ⟨p, hp, rfl⟩ | ⟨e, he, hminor, rfl⟩
      · exact hbefore.package hp
      · have hresult : (job.outcome path w).result = .error e := he
        exact hbefore.failure hresult hminor
    have hall := ih hrest hone
    unfold outcomesFrom
    rw [hpath, List.append_cons]
    exact hall

private theorem ok_of_conclude {r r' : Report} (h : (conclude r).perform w = (.ok r', w')) :
    r' = { r with outOfDate := w.outOfDate } ∧ ∃ log, w' = { w with log } := by
  unfold conclude at h
  rw [Action.perform_bind_ok (x := w) rfl] at h
  dsimp only [Action.perform_get] at h
  by_cases hnil : w.outOfDate.isEmpty = true
  · rw [hnil] at h
    cases h
    exact ⟨rfl, w.log, rfl⟩
  · rw [Bool.not_eq_true] at hnil
    rw [hnil] at h
    cases h
    exact ⟨rfl, _, rfl⟩

/-- A run that returns a report has come to all manifests, then to the files beside the recipes, and has remarked on
them. -/
theorem stages_of_run {start : World σ} {r : Report} (h : (job.run.perform start).1 = .ok r) :
    ∃ r' v v' log,
      (job.configuration.sources.foldlM job.addPackage {}).perform { start with answers := ∅ } = (.ok r', v) ∧
      (job.topLevel r'.packages).perform v = (.ok (), v') ∧ (job.run.perform start).2 = { v' with log } ∧
      r.packages = r'.packages ∧ r.failed = r'.failed := by
  have hsplit : Action.perform (job.generate >>= conclude) { start with answers := ∅ } =
      (.ok r, (job.run.perform start).2) := Prod.ext h rfl
  obtain ⟨r', v, hgenerate, hconclude⟩ := Action.bind_ok_cases hsplit
  obtain ⟨r'', v', hsources, hrest⟩ := Action.bind_ok_cases hgenerate
  obtain ⟨⟨⟩, v'', htop, hreturn⟩ := Action.bind_ok_cases hrest
  cases hreturn
  obtain ⟨hreport, log, hworld⟩ := ok_of_conclude hconclude
  rw [hreport]
  exact ⟨r', v', v, log, hsources, htop, hworld, rfl, rfl⟩

/-- The manifests of a run that returns a report have all had their turn. -/
theorem sources_of_run {start : World σ} {r : Report} (h : (job.run.perform start).1 = .ok r) :
    ∃ r' v, (job.configuration.sources.foldlM job.addPackage {}).perform { start with answers := ∅ } = (.ok r', v) ∧
      r.packages = r'.packages ∧ r.failed = r'.failed := by
  obtain ⟨r', v, -, -, hsources, -, -, hpackages, hfailed⟩ := stages_of_run h
  exact ⟨r', v, hsources, hpackages, hfailed⟩

/-- A report accounts for each manifest once, in order. -/
theorem accounts_of_run {start : World σ} {r : Report} (h : (job.run.perform start).1 = .ok r) :
    (job.outcomes start).map (·.path) = job.configuration.sources ∧ r.Accounts (job.outcomes start) := by
  obtain ⟨r', v, hsources, hpackages, hfailed⟩ := sources_of_run h
  have hempty : Report.Accounts {} [] := ⟨rfl, rfl, fun o ho => by cases ho⟩
  have hall := accounts_sources hsources hempty
  rw [List.nil_append] at hall
  exact ⟨paths_sources hsources, hpackages.trans hall.packages, hfailed.trans hall.failed, hall.minor⟩

/-! ### Errors -/

/-- A run fails with a collision of patches, or beside the recipes. -/
theorem collision_or_beside {start : World σ} {e : Error} (h : (job.run.perform start).1 = .error e) :
    (∃ p, e = .patchCollision p) ∨ job.FailsBeside e := by
  rcases Action.bind_error_cases (error_of_run h) with hsources | ⟨r, v, -, hrest⟩
  · obtain ⟨before, path, after, report, turn, -, -, hpath⟩ := Action.foldlM_error hsources
    obtain ⟨stop, -, hfatal, -⟩ := error_of_addPackage hpath
    exact .inl (Error.isFatal_iff.1 hfatal)
  · rcases Action.bind_error_cases hrest with htop | ⟨⟨⟩, v', -, hreturn⟩
    · exact .inr ((confined_topLevel v.patches r.packages v rfl).2 e (congrArg Prod.fst htop))
    · cases hreturn

end Job

end RosRecipes
