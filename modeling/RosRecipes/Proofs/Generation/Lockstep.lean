import RosRecipes.Generation.Run
import RosRecipes.Proofs.Generation.Draft

/-!
# Runs in step

Two runs of one job go in step: they have the same outcomes and remember the same, and a relation `S` between their
files and emissions is kept, unless at some point they are spoiled, which is what `B` says (`Lockstep`).  Only the
emissions have to be looked at for `S` and `B`.

* `Action.Adds`: nothing is taken away by an action, wherever it starts.
* `Action.Related`: two worlds from which an action goes in step.
* `Job.related_generate` is about whole runs, as long as the manifests read the same when their turn comes.
-/

namespace RosRecipes

variable {σ α β : Type} {u v u' v' w : World σ}

theorem World.Beside.later (h : u.Beside v) : v.Later u := by
  refine ⟨⟨[], ?_⟩, ⟨[], ?_⟩, h.files.symm.grows, fun place c executable hplace => .inl ?_⟩
  · rw [List.append_nil, h.emitted]
  · rw [List.append_nil, h.outOfDate]
  · rw [h.files.find, hplace]

/-- What goes in step until it is spoiled. -/
structure Lockstep (S B : World σ → World σ → Prop) : Prop where
  beside : ∀ u v u' v', S u v → u'.Beside u → v'.Beside v → S u' v'
  emit : ∀ u v p content, S u v →
    (((Action.emit p content).perform u).1 = ((Action.emit p content).perform v).1 ∧
      S ((Action.emit p content).perform u).2 ((Action.emit p content).perform v).2) ∨
    B ((Action.emit p content).perform u).2 ((Action.emit p content).perform v).2
  spoiled : ∀ u v u' v', B u v → u.Later u' → v.Later v' → B u' v'

namespace Action

/-! ### Actions that take nothing away -/

/-- Wherever the action starts, it takes nothing away. -/
def Adds (a : Action σ α) : Prop := ∀ w : World σ, w.Later (a.perform w).2

theorem Adds.pure (x : α) : Adds (Pure.pure x : Action σ α) := fun w => .refl w

theorem Adds.throw (e : Error) : Adds (throw e : Action σ α) := fun w => .refl w

theorem Adds.remark (level : Level) (text : String) : Adds (remark level text : Action σ Unit) :=
  fun _ => World.Beside.later ⟨.refl _, rfl, rfl, rfl⟩

theorem Adds.attempt {a : Action σ α} (h : Adds a) : Adds a.attempt := h

/-- What follows an action takes away nothing that the action left. -/
theorem Adds.later_bind {a : Action σ α} {f : α → Action σ β} (hf : ∀ x, Adds (f x)) (w : World σ) :
    (a.perform w).2.Later ((a >>= f).perform w).2 := by
  cases hr : (a.perform w).1 with
  | error e =>
    rw [perform_bind_error hr]
    exact .refl _
  | ok x =>
    rw [perform_bind_ok hr]
    exact hf x _

theorem Adds.bind {a : Action σ α} {f : α → Action σ β} (ha : Adds a) (hf : ∀ x, Adds (f x)) : Adds (a >>= f) :=
  fun w => (ha w).trans (later_bind hf w)

theorem Adds.foldlM {f : β → α → Action σ β} (h : ∀ b x, Adds (f b x)) (l : List α) (b : β) :
    Adds (l.foldlM f b) := by
  induction l generalizing b with
  | nil => exact .pure b
  | cons x l ih =>
    rw [List.foldlM_cons]
    exact (h b x).bind ih

/-! ### Worlds from which an action goes in step -/

variable {S B : World σ → World σ → Prop}

/-- The action has the same outcome in both worlds and keeps what goes in step, or the worlds are spoiled. -/
def Related (S B : World σ → World σ → Prop) (a : Action σ α) (u v : World σ) : Prop :=
  ((a.perform u).1 = (a.perform v).1 ∧ (a.perform u).2.Alike (a.perform v).2 ∧
    S (a.perform u).2 (a.perform v).2) ∨ B (a.perform u).2 (a.perform v).2

theorem Related.bind (L : Lockstep S B) {a : Action σ α} {f : α → Action σ β} (ha : Related S B a u v)
    (hadds : ∀ x, Adds (f x))
    (hf : ∀ x, (a.perform u).1 = .ok x → (a.perform u).2.Alike (a.perform v).2 → S (a.perform u).2 (a.perform v).2 →
      Related S B (f x) (a.perform u).2 (a.perform v).2) :
    Related S B (a >>= f) u v := by
  rcases ha with ⟨hr, halike, hS⟩ | hB
  · cases hu : (a.perform u).1 with
    | error e =>
      rw [hu] at hr
      refine .inl ?_
      rw [perform_bind_error hu, perform_bind_error hr.symm]
      exact ⟨rfl, halike, hS⟩
    | ok x =>
      rw [hu] at hr
      unfold Related
      rw [perform_bind_ok hu, perform_bind_ok hr.symm]
      exact hf x hu halike hS
  · exact .inr (L.spoiled _ _ _ _ hB (Adds.later_bind hadds u) (Adds.later_bind hadds v))

theorem Related.attempt {a : Action σ α} (h : Related S B a u v) : Related S B a.attempt u v := by
  rcases h with ⟨hr, halike, hS⟩ | hB
  · exact .inl ⟨congrArg Except.ok hr, halike, hS⟩
  · exact .inr hB

/-- The action takes nothing away, and it goes in step from all worlds that go in step. -/
structure InStep (S B : World σ → World σ → Prop) (a : Action σ α) : Prop where
  adds : Adds a
  related : ∀ u v, u.Alike v → S u v → Related S B a u v

theorem InStep.pure (x : α) : InStep S B (Pure.pure x : Action σ α) :=
  ⟨.pure x, fun _ _ halike hS => .inl ⟨rfl, halike, hS⟩⟩

theorem InStep.throw (e : Error) : InStep S B (throw e : Action σ α) :=
  ⟨.throw e, fun _ _ halike hS => .inl ⟨rfl, halike, hS⟩⟩

theorem InStep.ofExcept (r : Except Error α) : InStep S B (ofExcept r : Action σ α) := by
  cases r with
  | error e => exact .throw e
  | ok x => exact .pure x

section

variable (L : Lockstep S B)

include L

theorem InStep.bind {a : Action σ α} {f : α → Action σ β} (ha : InStep S B a) (hf : ∀ x, InStep S B (f x)) :
    InStep S B (a >>= f) :=
  ⟨ha.adds.bind fun x => (hf x).adds, fun u v halike hS =>
    (ha.related u v halike hS).bind L (fun x => (hf x).adds) fun x _ halike' hS' => (hf x).related _ _ halike' hS'⟩

theorem InStep.remark (level : Level) (text : String) : InStep S B (Action.remark level text : Action σ Unit) := by
  refine ⟨.remark level text, fun u v halike hS => .inl ⟨rfl, ?_, ?_⟩⟩
  · exact { halike with }
  · exact L.beside u v _ _ hS ⟨.refl _, rfl, rfl, rfl⟩ ⟨.refl _, rfl, rfl, rfl⟩

theorem InStep.emit (p : Path) (content : ByteArray) : InStep S B (Action.emit p content : Action σ Unit) := by
  refine ⟨later_emit p content, fun u v halike hS => ?_⟩
  rcases L.emit u v p content hS with ⟨hr, hS'⟩ | hB
  · exact .inl ⟨hr, (alike_emit p content u).trans (halike.trans (alike_emit p content v).symm), hS'⟩
  · exact .inr hB

theorem InStep.forM {f : α → Action σ Unit} (h : ∀ x, InStep S B (f x)) (l : List α) : InStep S B (l.forM f) := by
  induction l with
  | nil => exact .pure ()
  | cons x l ih => exact (h x).bind L fun _ => ih

end

end Action

open Action (Adds Related InStep)

namespace Job

variable {S B : World σ → World σ → Prop} {job : Job σ}

/-! ### The files of a package -/

section

variable (L : Lockstep S B)

include L

private theorem inStep_emitPatch (directory : Path) (p : Patch) :
    InStep S B (emitPatch directory p : Action σ Unit) := by
  constructor
  · intro w
    rw [perform_emitPatch]
    cases w.patches.claim? (directory / p.fileName) with
    | none => exact .refl w
    | some patches =>
      have hclaim : World.Beside { w with patches } w := ⟨.refl _, rfl, rfl, rfl⟩
      exact hclaim.later.trans (Action.later_emit _ _ _)
  · intro u v halike hS
    unfold Related
    rw [perform_emitPatch, perform_emitPatch, halike.patches]
    cases v.patches.claim? (directory / p.fileName) with
    | none => exact .inl ⟨rfl, halike, hS⟩
    | some patches =>
      refine (InStep.emit L _ _).related _ _ { halike with patches := rfl } ?_
      exact L.beside u v _ _ hS ⟨.refl _, rfl, rfl, rfl⟩ ⟨.refl _, rfl, rfl, rfl⟩

private theorem inStep_announce (d : Draft) : InStep S B (announce d : Action σ Unit) := by
  constructor
  · intro w
    obtain ⟨log, hw⟩ := perform_announce d w
    rw [hw]
    exact World.Beside.later ⟨.refl _, rfl, rfl, rfl⟩
  · intro u v halike hS
    obtain ⟨log, hu⟩ := perform_announce d u
    obtain ⟨log', hv⟩ := perform_announce d v
    refine .inl ?_
    rw [hu, hv]
    exact ⟨rfl, { halike with }, L.beside u v _ _ hS ⟨.refl _, rfl, rfl, rfl⟩ ⟨.refl _, rfl, rfl, rfl⟩⟩

private theorem inStep_emitDraft (d : Draft) : InStep S B (emitDraft d : Action σ GeneratedPackage) := by
  refine .bind L (.emit L _ _) fun _ => .bind L (.forM L (inStep_emitPatch L _) d.patches) fun _ => ?_
  exact (inStep_announce L d).bind L fun _ => .pure _

/-! ### The files beside the recipes -/

private theorem inStep_emitTop (name text : String) : InStep S B (job.emitTop name text) := .emit L _ _

private theorem inStep_emitShell (packages : List GeneratedPackage) : InStep S B (job.emitShell packages) := by
  unfold emitShell
  dsimp only
  cases job.configuration.shell with
  | true => exact (InStep.ofExcept _).bind L fun _ => inStep_emitTop L _ _
  | false => exact .pure ()

private theorem inStep_emitDefault : InStep S B job.emitDefault := by
  unfold emitDefault
  dsimp only
  cases job.configuration.writesDefault with
  | true => exact (InStep.ofExcept _).bind L fun _ => inStep_emitTop L _ _
  | false => exact .pure ()

private theorem inStep_topLevel (packages : List GeneratedPackage) : InStep S B (job.topLevel packages) := by
  have hoverlay : InStep S B (job.emitOverlay packages) := by
    unfold emitOverlay
    dsimp only
    cases job.configuration.overlay with
    | true => exact inStep_emitTop L _ _
    | false => exact .pure ()
  have hflake : InStep S B job.emitFlake := by
    unfold emitFlake
    dsimp only
    cases job.configuration.flake with
    | true => exact inStep_emitTop L _ _
    | false => exact .pure ()
  refine hoverlay.bind L fun _ => (inStep_emitShell L packages).bind L fun _ => ?_
  exact hflake.bind L fun _ => inStep_emitDefault L

end

/-! ### Packages -/

/-- The manifest reads the same in both trees, or in none. -/
def ReadsAlike (t t' : FileTree) (path : Path) : Prop :=
  t.readText path = t'.readText path ∨
    (∃ fault, t.readText path = .error fault) ∧ ∃ fault, t'.readText path = .error fault

section

variable (L : Lockstep S B) (h : job.runner.Steady)

include h in
private theorem adds_prepare (path : Path) : Adds (job.prepare path) := fun w => (beside_prepare h path w).later

include L h

private theorem related_package {path : Path} (halike : u.Alike v) (hS : S u v)
    (hread : u.files.readText path = v.files.readText path) : Related S B (job.package path) u v := by
  have hprepare : Related S B (job.prepare path) u v := by
    obtain ⟨hr, habreast⟩ := coupled_prepare h hread u v ⟨.refl u, .refl v, halike⟩
    exact .inl ⟨hr, habreast.alike, L.beside u v _ _ hS habreast.left habreast.right⟩
  exact hprepare.bind L (fun d => (inStep_emitDraft L d).adds) fun d _ halike' hS' =>
    (inStep_emitDraft L d).related _ _ halike' hS'

omit h in
/-- What becomes of a package is reported or remarked on. -/
private theorem inStep_report (r : Report) (path : Path) (outcome : Except Error GeneratedPackage) :
    InStep S B (match outcome with
      | .ok p => return { r with packages := r.packages ++ [p] }
      | .error e =>
        if e.isFatal then do
          Action.remark .error e.message
          throw e
        else do
          Action.remark .error ("Failed to prepare Nix expression from " ++ path.text ++ ": " ++ e.message)
          return { r with failed := r.failed ++ [path] } : Action σ Report) := by
  cases outcome with
  | ok p => exact .pure _
  | error e =>
    dsimp only
    cases e.isFatal with
    | true => exact (InStep.remark L _ _).bind L fun _ => .throw e
    | false => exact (InStep.remark L _ _).bind L fun _ => .pure _

/-- One manifest more takes nothing away. -/
theorem adds_addPackage (r : Report) (path : Path) : Adds (job.addPackage r path) := by
  have hpackage : Adds (job.package path) := (adds_prepare h path).bind fun d => (inStep_emitDraft L d).adds
  exact hpackage.attempt.bind fun outcome => (inStep_report L r path outcome).adds

omit L h in
private theorem perform_addPackage_of_unreadable (job : Job σ) (r : Report) {path : Path} {fault : FileFault}
    (hread : w.files.readText path = .error fault) :
    ∃ log, (job.addPackage r path).perform w = (.ok { r with failed := r.failed ++ [path] }, { w with log }) := by
  have hmanifest : (readManifest path).perform w = (.error (.manifest path (.file fault)), w) := by
    unfold readManifest
    rw [Action.perform_bind_ok (x := w) rfl, hread]
    rfl
  have hpackage : (job.package path).perform w = (.error (.manifest path (.file fault)), w) := by
    unfold package prepare
    rw [Action.perform_bind_error (e := .manifest path (.file fault))]
    · rw [Action.perform_bind_error (congrArg Prod.fst hmanifest), hmanifest]
    · rw [Action.perform_bind_error (congrArg Prod.fst hmanifest)]
  unfold addPackage
  rw [Action.perform_bind_ok (x := .error (.manifest path (.file fault)))]
  · rw [Action.perform_attempt, hpackage]
    exact ⟨_, rfl⟩
  · rw [Action.perform_attempt, hpackage]

private theorem related_addPackage (r : Report) {path : Path} (halike : u.Alike v) (hS : S u v)
    (hread : ReadsAlike u.files v.files path) : Related S B (job.addPackage r path) u v := by
  rcases hread with hread | ⟨⟨fault, hu⟩, fault', hv⟩
  · have hpackage := (related_package L h halike hS hread).attempt
    refine hpackage.bind L (fun outcome => (inStep_report L r path outcome).adds) ?_
    exact fun outcome _ halike' hS' => (inStep_report L r path outcome).related _ _ halike' hS'
  · obtain ⟨log, hleft⟩ := perform_addPackage_of_unreadable job r hu
    obtain ⟨log', hright⟩ := perform_addPackage_of_unreadable job r hv
    refine .inl ?_
    rw [hleft, hright]
    exact ⟨rfl, { halike with }, L.beside u v _ _ hS ⟨.refl _, rfl, rfl, rfl⟩ ⟨.refl _, rfl, rfl, rfl⟩⟩

/-- Generating packages takes nothing away. -/
theorem adds_sources (sources : List Path) (r : Report) : Adds (sources.foldlM job.addPackage r) :=
  .foldlM (adds_addPackage L h) sources r

/-- The packages of some manifests, each of which reads the same in both worlds when its turn comes. -/
private theorem related_sources (sources : List Path) (r : Report) (halike : u.Alike v) (hS : S u v)
    (hread : ∀ before path after v', sources = before ++ path :: after →
      S ((before.foldlM job.addPackage r).perform u).2 v' →
      ReadsAlike ((before.foldlM job.addPackage r).perform u).2.files v'.files path) :
    Related S B (sources.foldlM job.addPackage r) u v := by
  induction sources generalizing r u v with
  | nil => exact .inl ⟨rfl, halike, hS⟩
  | cons path sources ih =>
    rw [List.foldlM_cons]
    have hfirst : ReadsAlike u.files v.files path := hread [] path sources v rfl hS
    refine (related_addPackage L h r halike hS hfirst).bind L ?_ fun r' hr halike' hS' => ih r' halike' hS' ?_
    · exact adds_sources L h sources
    · intro before path' after v' hsources hS''
      have hbefore : ((path :: before).foldlM job.addPackage r).perform u =
          (before.foldlM job.addPackage r').perform ((job.addPackage r path).perform u).2 := by
        rw [List.foldlM_cons, Action.perform_bind_ok hr]
      have hnext := hread (path :: before) path' after v' (by rw [hsources]; rfl)
      rw [hbefore] at hnext
      exact hnext hS''

/-! ### Runs -/

/-- A run goes in step if each manifest reads the same when its turn comes. -/
theorem related_generate (halike : u.Alike v) (hS : S u v)
    (hread : ∀ before path after v', job.configuration.sources = before ++ path :: after →
      S ((before.foldlM job.addPackage {}).perform u).2 v' →
      ReadsAlike ((before.foldlM job.addPackage {}).perform u).2.files v'.files path) :
    Related S B job.generate u v := by
  refine (related_sources L h _ {} halike hS hread).bind L ?_ fun r _ halike' hS' => ?_
  · exact fun r => (inStep_topLevel L r.packages).adds.bind fun _ => .pure r
  · exact ((inStep_topLevel L r.packages).bind L fun _ => .pure r).related _ _ halike' hS'

/-- What a run leaves is later than what it had before the turn of a manifest. -/
theorem later_turn {before after : List Path} (hsources : job.configuration.sources = before ++ after) :
    ((before.foldlM job.addPackage {}).perform w).2.Later (job.generate.perform w).2 := by
  have hrest : ∀ r : Report, Adds (do
      job.topLevel r.packages
      return r) := fun r => (inStep_topLevel L r.packages).adds.bind fun _ => .pure r
  have hsplit := Adds.later_bind (adds_sources L h after) (a := before.foldlM job.addPackage {}) w
  rw [← List.foldlM_append, ← hsources] at hsplit
  exact hsplit.trans (Adds.later_bind hrest w)

end

end Job

end RosRecipes
