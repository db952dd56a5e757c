import RosRecipes.Proofs.Generation.Outcomes

/-!
# The drafts of a run

When the turn of a manifest comes, a draft is prepared, and if its files can be emitted, there is a package
(`Job.drafts`).  The packages of a report are those of the drafts, in order (`packages_of_run`).

* What preparing and emitting keep is kept to the end of the run (`Job.Kept`, `exists_turn`).
* The recipes of the drafts are among the files that were emitted, in order (`recipes_sublist`).
-/

namespace RosRecipes

open Action (Confined)

variable {σ α : Type} {I : World σ → Prop} {w w' : World σ}

namespace Job

variable {job : Job σ} {d : Draft}

/-! ### What a run keeps -/

/-- Preparing, emitting and claiming keep `I`, and remarks do not matter for it. -/
structure Kept (job : Job σ) (I : World σ → Prop) : Prop where
  prepare : ∀ path, Confined I (fun _ => True) (job.prepare path)
  emit : ∀ p content, Confined I (fun _ => True) (Action.emit p content : Action σ Unit)
  claim : ∀ w patches, I w → I { w with patches }
  remark : ∀ w log, I w → I { w with log }

namespace Kept

variable (h : job.Kept I)

include h

theorem emitDraft (d : Draft) : Confined I (fun _ => True) (emitDraft d : Action σ GeneratedPackage) := by
  have hpatch : ∀ directory q, Confined I (fun _ => True) (emitPatch directory q : Action σ Unit) := by
    intro directory q
    refine .get fun w _ => ?_
    cases w.patches.claim? (directory / q.fileName) with
    | none => exact .throw trivial
    | some patches => exact .bind (.modify fun w hw => h.claim w patches hw) fun _ => h.emit _ _
  have hannounce : Confined I (fun _ => True) (announce d : Action σ Unit) := by
    refine .get fun w _ => ?_
    cases w.mode with
    | write => exact .remark h.remark _ _
    | compare => exact .pure ()
  exact (h.emit _ _).bind fun _ => (Confined.forM (hpatch _) d.patches).bind fun _ => hannounce.bind fun _ => .pure _

theorem package (path : Path) : Confined I (fun _ => True) (job.package path) :=
  (h.prepare path).bind fun d => h.emitDraft d

theorem addPackage (r : Report) (path : Path) : Confined I (fun _ => True) (job.addPackage r path) := by
  refine (h.package path).attempt_bind fun outcome _ => ?_
  cases outcome with
  | ok p => exact .pure _
  | error e =>
    refine .ite (fun _ => .bind (.remark h.remark _ _) fun _ => .throw trivial) fun _ => ?_
    exact .bind (.remark h.remark _ _) fun _ => .pure _

theorem topLevel (packages : List GeneratedPackage) : Confined I (fun _ => True) (job.topLevel packages) := by
  have htop : ∀ name text, Confined I (fun _ => True) (job.emitTop name text) := fun _ _ => h.emit _ _
  have hreference : ∀ {f : String → Action σ Unit}, (∀ overlay, Confined I (fun _ => True) (f overlay)) →
      Confined I (fun _ => True)
        (Action.ofExcept (Configuration.expressionOf job.configuration.overlayReference) >>= f) :=
    fun hf => .bind (.ofExcept fun _ _ => trivial) hf
  have hoverlay : Confined I (fun _ => True) (job.emitOverlay packages) :=
    .ite (fun _ => htop _ _) fun _ => .pure ()
  have hshell : Confined I (fun _ => True) (job.emitShell packages) :=
    .ite (fun _ => hreference fun _ => htop _ _) fun _ => .pure ()
  have hflake : Confined I (fun _ => True) job.emitFlake := .ite (fun _ => htop _ _) fun _ => .pure ()
  have hdefault : Confined I (fun _ => True) job.emitDefault :=
    .ite (fun _ => hreference fun _ => htop _ _) fun _ => .pure ()
  exact hoverlay.bind fun _ => hshell.bind fun _ => hflake.bind fun _ => hdefault

/-- What every part of a run keeps is kept by the run, also when it is given up. -/
theorem whole (hanswers : ∀ w answers, I w → I { w with answers }) : Confined I (fun _ => True) job.run := by
  refine .bind (.modify fun w hw => hanswers w ∅ hw) fun _ => ?_
  refine .bind ((Confined.foldlM h.addPackage _ _).bind fun r => (h.topLevel r.packages).bind fun _ => .pure r) ?_
  refine fun r => .get fun w _ => .ite (fun _ => ?_) fun _ => .pure _
  exact .bind (.remark h.remark _ _) fun _ => .pure _

end Kept

/-! ### Turns -/

/-- The draft of a manifest whose turn comes, if there is one and its files can be emitted. -/
def draft? (job : Job σ) (path : Path) (w : World σ) : Option Draft :=
  match (job.prepare path).perform w with
  | (.ok d, v) => if ((emitDraft d).perform v).1.isOk then some d else none
  | (.error _, _) => none

/-- The drafts of some manifests, up to an error that ends the run. -/
def draftsFrom (job : Job σ) : List Path → Report → World σ → List Draft
  | [], _, _ => []
  | path :: sources, r, w =>
    (job.draft? path w).toList ++
      match (job.addPackage r path).perform w with
      | (.ok r', w') => job.draftsFrom sources r' w'
      | (.error _, _) => []

/-- The drafts of the packages that a run generates, in order. -/
def drafts (job : Job σ) (start : World σ) : List Draft :=
  job.draftsFrom job.configuration.sources {} { start with answers := ∅ }

/-- The file of the recipe of a draft. -/
def Draft.emission (d : Draft) : Emission := ⟨d.outputFile, d.text.toUTF8, false⟩

/-- A turn ends with the package of a draft, or with an error and without a draft. -/
theorem turn_cases (job : Job σ) (path : Path) (w : World σ) :
    (∃ d v v', (job.prepare path).perform w = (.ok d, v) ∧ (emitDraft d).perform v = (.ok d.package, v') ∧
      (job.package path).perform w = (.ok d.package, v') ∧ job.draft? path w = some d) ∨
    ∃ e v', (job.package path).perform w = (.error e, v') ∧ job.draft? path w = none := by
  unfold package draft?
  rw [Action.perform_bind]
  rcases (job.prepare path).perform w with ⟨e | d, v⟩
  · exact .inr ⟨e, v, rfl, rfl⟩
  · dsimp only
    rcases emitDraft_cases d v with ⟨e, v', -, hperform⟩ | ⟨u, -, ⟨e, v', -, hperform⟩ | ⟨v', log, -, hperform⟩⟩
    · rw [hperform]
      exact .inr ⟨e, v', rfl, rfl⟩
    · rw [hperform]
      exact .inr ⟨e, v', rfl, rfl⟩
    · exact .inl ⟨d, v, { v' with log }, rfl, hperform, hperform, by rw [hperform]; rfl⟩

private theorem packages_of_sources {sources : List Path} {r r' : Report}
    (h : (sources.foldlM job.addPackage r).perform w = (.ok r', w')) :
    r'.packages = r.packages ++
      (job.draftsFrom sources r w).map Draft.package := by
  induction sources generalizing r w with
  | nil =>
    cases h
    exact (List.append_nil _).symm
  | cons path sources ih =>
    rw [List.foldlM_cons] at h
    obtain ⟨r₁, v, hpath, hrest⟩ := Action.bind_ok_cases h
    unfold draftsFrom
    rw [hpath, ih hrest, List.map_append]
    rcases job.turn_cases path w with ⟨d, _, v', -, -, hpackage, hdraft⟩ | ⟨e, v', hpackage, hdraft⟩
    · rw [perform_addPackage, hpackage] at hpath
      cases hpath
      rw [hdraft, List.append_assoc]
      rfl
    · rw [hdraft]
      rcases ok_of_addPackage hpath with ⟨p, hok, -⟩ | ⟨e', -, -, rfl⟩
      · rw [hpackage] at hok
        cases hok
      · rfl

/-- The packages of a report are those of the drafts. -/
theorem packages_of_run {start : World σ} {r : Report} (h : (job.run.perform start).1 = .ok r) :
    r.packages = (job.drafts start).map Draft.package := by
  obtain ⟨r', v, hsources, hpackages, -⟩ := sources_of_run h
  rw [hpackages, packages_of_sources hsources]
  rfl

private theorem exists_turn_of_sources {sources : List Path} {r r' : Report}
    (h : (sources.foldlM job.addPackage r).perform w = (.ok r', w'))
    (hd : d ∈ job.draftsFrom sources r w) :
    ∃ path u v v', (job.prepare path).perform u = (.ok d, v) ∧ (emitDraft d).perform v = (.ok d.package, v') ∧
      ∀ I, job.Kept I → I v' → I w' := by
  induction sources generalizing r w with
  | nil => cases hd
  | cons path sources ih =>
    rw [List.foldlM_cons] at h
    obtain ⟨r₁, v, hpath, hrest⟩ := Action.bind_ok_cases h
    unfold draftsFrom at hd
    rw [hpath] at hd
    rcases job.turn_cases path w with ⟨d', v₁, v₂, hprepare, hemit, hpackage, hdraft⟩ | ⟨e, v', -, hdraft⟩
    · rw [hdraft, Option.toList_some, List.singleton_append, List.mem_cons] at hd
      rcases hd with rfl | hd
      · refine ⟨path, w, v₁, v₂, hprepare, hemit, fun I hkept hI => ?_⟩
        obtain ⟨log, rfl⟩ := world_of_addPackage hpath
        rw [hpackage] at hrest
        exact (Confined.foldlM hkept.addPackage sources r₁).after hrest (hkept.remark v₂ log hI)
      · exact ih hrest hd
    · rw [hdraft] at hd
      exact ih hrest hd

/-- What every part of a run keeps holds at the end of it. -/
theorem Kept.run (h : job.Kept I) {start : World σ} {r : Report} (hrun : (job.run.perform start).1 = .ok r)
    (hstart : I { start with answers := ∅ }) : I (job.run.perform start).2 := by
  obtain ⟨r', w, w', log, hsources, htop, hworld, -, -⟩ := stages_of_run hrun
  have hready := (Confined.foldlM h.addPackage job.configuration.sources {}).after hsources hstart
  rw [hworld]
  exact h.remark w' log ((h.topLevel r'.packages).after htop hready)

/-- Each draft of a run was prepared and emitted in some turn, and what every part of the run keeps has been kept from
then to the end. -/
theorem exists_turn {start : World σ} {r : Report} (h : (job.run.perform start).1 = .ok r)
    (hd : d ∈ job.drafts start) :
    ∃ path u v v', (job.prepare path).perform u = (.ok d, v) ∧ (emitDraft d).perform v = (.ok d.package, v') ∧
      ∀ I, job.Kept I → I v' → I (job.run.perform start).2 := by
  obtain ⟨r', w, w', log, hsources, htop, hworld, -, -⟩ := stages_of_run h
  obtain ⟨path, u, v, v', hprepare, hemit, hafter⟩ := exists_turn_of_sources hsources hd
  refine ⟨path, u, v, v', hprepare, hemit, fun I hkept hI => ?_⟩
  rw [hworld]
  exact hkept.remark w' log ((hkept.topLevel r'.packages).after htop (hafter I hkept hI))

/-! ### Emissions -/

/-- Nothing is emitted while a package is prepared. -/
theorem confined_prepare_emitted (job : Job σ) (P : List Emission → Prop) (path : Path) :
    Confined (fun w => P w.emitted) (fun _ => True) (job.prepare path) := by
  have hconfines : job.runner.Confines (fun w => P w.emitted) (fun _ => True) :=
    { call := fun _ => .call (fun _ _ _ hw => hw) fun _ _ _ _ => trivial
      minor := fun _ _ => trivial
      files := fun _ _ hw => hw
      log := fun _ _ hw => hw
      runCache := fun _ _ hw => hw
      storedCache := fun _ _ hw => hw }
  exact confined_prepare hconfines (hconfines.others.lookup (fun _ _ hw => hw) job.database) path

/-- What was emitted stays. -/
theorem kept_emitted (before : List Emission) : job.Kept (before <+: ·.emitted) where
  prepare := job.confined_prepare_emitted (before <+: ·)
  emit := by
    refine fun p content w hw => ⟨?_, fun _ _ => trivial⟩
    have hemitted := (Action.emitted_emit p content w).1
    show before <+: ((Action.emit p content).perform w).2.emitted
    rw [hemitted]
    exact hw.trans (List.prefix_append _ _)
  claim := fun _ _ hw => hw
  remark := fun _ _ hw => hw

private theorem recipes_of_sources {sources : List Path} {r r' : Report}
    (h : (sources.foldlM job.addPackage r).perform w = (.ok r', w')) :
    ∃ added, w'.emitted = w.emitted ++ added ∧ ((job.draftsFrom sources r w).map Draft.emission).Sublist added := by
  induction sources generalizing r w with
  | nil =>
    cases h
    exact ⟨[], (List.append_nil _).symm, .slnil⟩
  | cons path sources ih =>
    rw [List.foldlM_cons] at h
    obtain ⟨r₁, v, hpath, hrest⟩ := Action.bind_ok_cases h
    obtain ⟨added, hadded, hsublist⟩ := ih hrest
    obtain ⟨log, hworld⟩ := world_of_addPackage hpath
    unfold draftsFrom
    rw [hpath, List.map_append]
    rcases job.turn_cases path w with ⟨d, v₁, v', hprepare, hemit, hpackage, hdraft⟩ | ⟨e, v', hpackage, hdraft⟩
    · have hready : v₁.emitted = w.emitted := (job.confined_prepare_emitted (· = w.emitted) path).after hprepare rfl
      rw [hpackage] at hworld
      subst hworld
      have hemitted := emitted_emitDraft hemit
      rw [hready] at hemitted
      refine ⟨d.emission :: d.patches.map (fun q => ⟨d.directory / q.fileName, q.content, false⟩) ++ added, ?_, ?_⟩
      · rw [hadded, hemitted, List.append_assoc]
        rfl
      · rw [hdraft]
        exact (hsublist.trans (List.sublist_append_right _ _)).cons_cons _
    · rw [hpackage] at hworld
      subst hworld
      obtain ⟨more, hmore⟩ := ((kept_emitted w.emitted).package path).after hpackage (List.prefix_refl _)
      refine ⟨more ++ added, ?_, ?_⟩
      · rw [hadded, ← List.append_assoc, hmore]
      · rw [hdraft]
        exact hsublist.trans (List.sublist_append_right _ _)

/-- The recipes of the drafts are emitted in order. -/
theorem recipes_sublist {start : World σ} {r : Report} (h : (job.run.perform start).1 = .ok r) :
    ∃ added, (job.run.perform start).2.emitted = start.emitted ++ added ∧
      ((job.drafts start).map Draft.emission).Sublist added := by
  obtain ⟨r', w, w', log, hsources, htop, hworld, -, -⟩ := stages_of_run h
  obtain ⟨added, hadded, hsublist⟩ := recipes_of_sources hsources
  obtain ⟨more, hmore⟩ := ((kept_emitted w.emitted).topLevel r'.packages).after htop (List.prefix_refl _)
  refine ⟨added ++ more, ?_, hsublist.trans (List.sublist_append_left _ _)⟩
  rw [hworld, ← List.append_assoc, ← hadded, hmore]

end Job

end RosRecipes
