import RosRecipes.Generation.Run
import RosRecipes.Proofs.Generation.Confinement
import RosRecipes.Proofs.Generation.Draft
import RosRecipes.Shell.Launch

/-!
# What a manifest may fail with

Only a collision of patches ends a run.  As long as no program answers with one, the preparation of a package fails
with none (`harmless_prepare`), and until its first file is emitted nothing is emitted or claimed.  An emission fails
only because its file, or the directory above it, cannot be written (`emit_error`).
-/

namespace RosRecipes

open Action (Confined)

variable {σ α β : Type} {u v w w₀ : World σ}

/-- No answer of a program is an error that ends the run. -/
def Runner.NeverFatal (runner : Runner σ) : Prop :=
  ∀ c s t e, (runner.run c s t).1 = .error e → e.isFatal = false

/-- Programs that are really started do not collide with patches. -/
theorem Shell.neverFatal_runner (search : List Path) : (Shell.runner search).NeverFatal := by
  have hanswer : ∀ (c : Command) (r : Completion) (e : Error), r.answer c = .error e → e.isFatal = false := by
    intro c r e he
    unfold Completion.answer at he
    by_cases hstatus : r.status ≠ .exited 0
    · rw [if_pos hstatus] at he
      cases he
      rfl
    · rw [if_neg hstatus] at he
      split at he
      · cases he
        rfl
      · split at he <;> cases he <;> rfl
  intro c s t e he
  simp only [Shell.runner] at he
  split at he
  · cases he
    rfl
  · exact hanswer c _ e he

/-- The worlds have claimed and emitted the same. -/
structure World.SameOutput (u v : World σ) : Prop where
  patches : u.patches = v.patches
  mode : u.mode = v.mode
  outOfDate : u.outOfDate = v.outOfDate
  emitted : u.emitted = v.emitted

theorem World.SameOutput.refl (w : World σ) : w.SameOutput w := ⟨rfl, rfl, rfl, rfl⟩

/-- The action claims and emits nothing, and no error with which it fails ends the run. -/
abbrev Action.Harmless (w₀ : World σ) (a : Action σ α) : Prop :=
  Confined w₀.SameOutput (·.isFatal = false) a

open Action (Harmless)

theorem Error.isFatal_iff {e : Error} : e.isFatal = true ↔ ∃ p, e = .patchCollision p := by
  cases e <;> simp [isFatal]

/-- Before the first file of a package nothing is claimed or emitted, and no error ends the run. -/
theorem Job.harmless_prepare {job : Job σ} (h : job.runner.NeverFatal) (path : Path) :
    Harmless w₀ (job.prepare path) := by
  have hconfines : job.runner.Confines w₀.SameOutput (·.isFatal = false) :=
    { call := fun c => .call (fun _ _ _ hw => { hw with }) (h c)
      minor := fun _ he => he
      files := fun _ _ hw => { hw with }
      log := fun _ _ hw => { hw with }
      runCache := fun _ _ hw => { hw with }
      storedCache := fun _ _ hw => { hw with } }
  exact confined_prepare hconfines (hconfines.others.lookup (fun _ _ hw => { hw with }) job.database) path

/-! ### Emissions -/

/-- The file, or the directory above it, could not be written. -/
def Error.IsWriteOf (p : Path) (e : Error) : Prop :=
  ∃ place fault, e = .write place fault ∧ (place = p ∨ p.parent? = some place)

theorem Error.IsWriteOf.isFatal {p : Path} {e : Error} (h : e.IsWriteOf p) : e.isFatal = false := by
  obtain ⟨place, fault, rfl, -⟩ := h
  rfl

/-- The worlds differ at most in what an emission may change. -/
def World.OutputOf (u v : World σ) : Prop :=
  u = { v with
    files := u.files
    log := u.log
    printed := u.printed
    outOfDate := u.outOfDate
    emitted := u.emitted }

theorem World.OutputOf.tools (h : u.OutputOf v) : u.tools = v.tools := by rw [h]

theorem World.OutputOf.storedCache (h : u.OutputOf v) : u.storedCache = v.storedCache := by rw [h]

theorem World.OutputOf.patches (h : u.OutputOf v) : u.patches = v.patches := by rw [h]

section

variable {I : World σ → Prop} {E : Error → Prop} (hI : ∀ w w', I w → w'.OutputOf w → I w')

include hI

private theorem confined_writeFile {p : Path} {content : ByteArray} (hE : ∀ e, Error.IsWriteOf p e → E e) :
    Confined I E (Action.writeFile p content : Action σ Unit) := by
  have hwrite : Confined I E (Action.changeFiles (.write p) (·.write p content) : Action σ Unit) :=
    .changeFiles (fun _ _ hw => hI _ _ hw rfl) fun fault => hE _ ⟨p, fault, rfl, .inl rfl⟩
  unfold Action.writeFile
  cases hparent : p.parent? with
  | none => exact hwrite
  | some above =>
    dsimp only
    cases above.isEmpty with
    | true => exact hwrite
    | false =>
      refine .bind (.changeFiles (fun _ _ hw => hI _ _ hw rfl) fun fault => ?_) fun _ => hwrite
      exact hE _ ⟨above, fault, rfl, .inr hparent⟩

private theorem confined_compareFile (p : Path) (content : ByteArray) :
    Confined I E (Action.compareFile p content : Action σ Unit) := by
  have hremark : ∀ text, Confined I E (Action.remark .error text : Action σ Unit) :=
    .remark (fun _ _ hw => hI _ _ hw rfl) .error
  have hmark : Confined I E (Action.markOutOfDate p : Action σ Unit) := .modify fun _ hw => hI _ _ hw rfl
  refine .get fun w _ => ?_
  cases w.files.read p with
  | error fault => exact (hremark _).bind fun _ => hmark
  | ok found =>
    dsimp only
    by_cases hfound : found ≠ content
    · rw [if_pos hfound]
      exact (hremark _).bind fun _ => .bind (.modify fun _ hw => hI _ _ hw rfl) fun _ => hmark
    · rw [if_neg hfound]
      exact .pure _

/-- An emission fails only because something could not be written. -/
theorem confined_emit {p : Path} {content : ByteArray} (hE : ∀ e, Error.IsWriteOf p e → E e) :
    Confined I E (Action.emit p content : Action σ Unit) := by
  refine Confined.attempt_bind (.get fun w _ => ?_) fun outcome houtcome => ?_
  · cases w.mode with
    | write => exact confined_writeFile hI hE
    | compare => exact confined_compareFile hI p content
  · exact .bind (.modify fun _ hw => hI _ _ hw rfl) fun _ => .ofExcept houtcome

end

theorem emit_error {p : Path} {content : ByteArray} {e : Error} (h : ((Action.emit p content).perform w).1 = .error e) :
    e.IsWriteOf p :=
  (confined_emit (I := fun _ => True) (fun _ _ _ _ => trivial) (fun _ he => he) w trivial).2 e h

/-! ### The files beside the recipes -/

/-- The names of the files beside the recipes, each with whether it is asked for. -/
def Configuration.topNames (c : Configuration) : List (String × Bool) :=
  [("overlay.nix", c.overlay), ("shell.nix", c.shell), ("flake.nix", c.flake), ("default.nix", c.writesDefault)]

/-- The files beside the recipes that are asked for. -/
def Configuration.topFiles (c : Configuration) : List Path :=
  (c.topNames.filter (·.2)).map fun (name, _) => c.topDirectory / name

namespace Job

variable {job : Job σ}

/-- One of the files beside the recipes cannot be written, or the package set has no expression. -/
def FailsBeside (job : Job σ) (e : Error) : Prop :=
  (∃ p ∈ job.configuration.topFiles, e.IsWriteOf p) ∨ job.configuration.checkReference = .error e

private theorem error_of_checkReference {c : Configuration} {e : Error} (h : c.checkReference = .error e) :
    (c.shell || c.writesDefault) = true ∧ Configuration.expressionOf c.overlayReference = .error e := by
  unfold Configuration.checkReference at h
  cases hneeded : c.shell || c.writesDefault with
  | false =>
    rw [hneeded] at h
    cases h
  | true =>
    rw [hneeded] at h
    refine ⟨rfl, ?_⟩
    cases hexpression : Configuration.expressionOf c.overlayReference with
    | ok text =>
      rw [hexpression] at h
      cases h
    | error e' =>
      rw [hexpression] at h
      cases h
      rfl

theorem FailsBeside.isFatal {e : Error} (h : job.FailsBeside e) : e.isFatal = false := by
  rcases h with ⟨p, -, hwrite⟩ | hreference
  · exact hwrite.isFatal
  · obtain ⟨-, hexpression⟩ := error_of_checkReference hreference
    unfold Configuration.expressionOf at hexpression
    cases hparse : FlakeReference.expression? job.configuration.overlayReference with
    | some text =>
      rw [hparse] at hexpression
      cases hexpression
    | none =>
      rw [hparse] at hexpression
      cases hexpression
      rfl

/-- Emitting the files beside the recipes claims nothing. -/
theorem confined_topLevel (claimed : PatchRegistry) (packages : List GeneratedPackage) :
    Confined (·.patches = claimed) job.FailsBeside (job.topLevel packages) := by
  have hI : ∀ w w' : World σ, w.patches = claimed → w'.OutputOf w → w'.patches = claimed :=
    fun _ _ hw hw' => hw'.patches.trans hw
  have htop : ∀ name text, (name, true) ∈ job.configuration.topNames →
      Confined (·.patches = claimed) job.FailsBeside (job.emitTop name text) := by
    refine fun name text hname => confined_emit hI fun e he => .inl ⟨_, ?_, he⟩
    exact List.mem_map.2 ⟨(name, true), List.mem_filter.2 ⟨hname, rfl⟩, rfl⟩
  have hreference : (job.configuration.shell || job.configuration.writesDefault) = true →
      Confined (·.patches = claimed) job.FailsBeside
        (Action.ofExcept (Configuration.expressionOf job.configuration.overlayReference) : Action σ String) := by
    intro hneeded
    refine .ofExcept fun e he => .inr ?_
    unfold Configuration.checkReference
    rw [hneeded, he]
    rfl
  have hoverlay : Confined (·.patches = claimed) job.FailsBeside (job.emitOverlay packages) :=
    .ite (fun hasked => htop _ _ (by simp [Configuration.topNames, hasked])) fun _ => .pure ()
  have hshell : Confined (·.patches = claimed) job.FailsBeside (job.emitShell packages) :=
    .ite (fun hasked => (hreference (by simp [hasked])).bind fun _ =>
      htop _ _ (by simp [Configuration.topNames, hasked])) fun _ => .pure ()
  have hflake : Confined (·.patches = claimed) job.FailsBeside job.emitFlake :=
    .ite (fun hasked => htop _ _ (by simp [Configuration.topNames, hasked])) fun _ => .pure ()
  have hdefault : Confined (·.patches = claimed) job.FailsBeside job.emitDefault :=
    .ite (fun hasked => (hreference (by simp [hasked])).bind fun _ =>
      htop _ _ (by simp [Configuration.topNames, hasked])) fun _ => .pure ()
  exact hoverlay.bind fun _ => hshell.bind fun _ => hflake.bind fun _ => hdefault

/-! ### Remarks -/

theorem confined_announce (claimed : PatchRegistry) (d : Draft) :
    Confined (·.patches = claimed) (fun _ => False) (announce d : Action σ Unit) := by
  intro w hw
  obtain ⟨log, hperform⟩ := perform_announce d w
  rw [hperform]
  exact ⟨hw, nofun⟩

/-- To conclude a report does not fail. -/
theorem confined_conclude (claimed : PatchRegistry) (r : Report) :
    Confined (·.patches = claimed) (fun _ => False) (conclude r : Action σ Report) :=
  .get fun _ _ => .ite (fun _ => .bind (.remark (fun _ _ hw => hw) _ _) fun _ => .pure _) fun _ => .pure _

/-! ### One manifest more -/

/-- An error that does not end the run is remarked on, and the manifest is reported as failed. -/
theorem perform_addPackage (job : Job σ) (r : Report) (path : Path) (w : World σ) :
    (job.addPackage r path).perform w =
      match (job.package path).perform w with
      | (.ok p, w') => (.ok { r with packages := r.packages ++ [p] }, w')
      | (.error e, w') =>
        if e.isFatal then (.error e, { w' with log := w'.log ++ [⟨.error, e.message⟩] })
        else (.ok { r with failed := r.failed ++ [path] }, { w' with log := w'.log ++
          [⟨.error, "Failed to prepare Nix expression from " ++ path.text ++ ": " ++ e.message⟩] }) := by
  unfold addPackage
  rw [Action.perform_bind_ok (x := ((job.package path).perform w).1) rfl, Action.perform_attempt]
  rcases (job.package path).perform w with ⟨e | p, w'⟩
  · dsimp only
    cases e.isFatal with
    | true => rfl
    | false => rfl
  · rfl

/-- What ends a run is remarked on. -/
theorem error_of_addPackage {job : Job σ} {r : Report} {path : Path} {w' : World σ} {e : Error}
    (h : (job.addPackage r path).perform w = (.error e, w')) :
    ∃ v, (job.package path).perform w = (.error e, v) ∧ e.isFatal = true ∧
      w' = { v with log := v.log ++ [⟨.error, e.message⟩] } := by
  rw [perform_addPackage] at h
  rcases hpackage : (job.package path).perform w with ⟨e' | p, v⟩
  · rw [hpackage] at h
    dsimp only at h
    by_cases hfatal : e'.isFatal = true
    · rw [if_pos hfatal] at h
      cases h
      exact ⟨v, rfl, hfatal, rfl⟩
    · rw [if_neg hfatal] at h
      cases h
  · rw [hpackage] at h
    cases h

/-- Where a run fails, generating has failed. -/
theorem error_of_run {job : Job σ} {start : World σ} {e : Error} (h : (job.run.perform start).1 = .error e) :
    job.generate.perform { start with answers := ∅ } = (.error e, (job.run.perform start).2) := by
  have hsplit : Action.perform (job.generate >>= conclude) { start with answers := ∅ } =
      (.error e, (job.run.perform start).2) := Prod.ext h rfl
  rcases Action.bind_error_cases hsplit with hgenerate | ⟨r, v, -, hconclude⟩
  · exact hgenerate
  · exact ((confined_conclude v.patches r v rfl).2 e (congrArg Prod.fst hconclude)).elim

end Job

end RosRecipes
