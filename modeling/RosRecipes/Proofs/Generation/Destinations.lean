import RosRecipes.Proofs.Generation.Failures
import RosRecipes.Proofs.Provenance.History

/-!
# Destinations of patches

A run claims the destinations of its patches one after the other (`Job.destinations`), those of one package and those
of all packages alike.  It ends with a collision at the first destination that has been claimed before, and the
registry holds all destinations before that one, also those whose files could not be written
(`destinations_claimed_once`).

* `Claims`: what performing an action has to do with the destinations that it claims.
* `Collision`: where and how a run ends with a collision.
-/

namespace RosRecipes

open Action (Confined)

variable {σ α β : Type} {w : World σ}

/-! ### Claiming -/

/-- The second registry holds what the first one holds, and these destinations, each once. -/
structure PatchRegistry.Extends (r r' : PatchRegistry) (ds : List Path) : Prop where
  claimed : r'.claimed = (ds.map Path.components).reverse ++ r.claimed
  nodup : r.claimed.Nodup → r'.claimed.Nodup

namespace PatchRegistry

variable {r r' r'' : PatchRegistry} {ds ds' : List Path} {d : Path}

theorem Extends.refl (r : PatchRegistry) : r.Extends r [] := ⟨rfl, id⟩

theorem Extends.trans (h : r.Extends r' ds) (h' : r'.Extends r'' ds') : r.Extends r'' (ds ++ ds') := by
  refine ⟨?_, fun hnodup => h'.nodup (h.nodup hnodup)⟩
  rw [h'.claimed, h.claimed, List.map_append, List.reverse_append, List.append_assoc]

theorem claim?_eq_none_iff : r.claim? d = none ↔ d.components ∈ r.claimed := by
  simp [claim?]

theorem extends_of_claim? (h : r.claim? d = some r') : r.Extends r' [d] := by
  unfold claim? at h
  by_cases hmem : d.components ∈ r.claimed
  · rw [if_pos hmem] at h
    cases h
  · rw [if_neg hmem] at h
    cases h
    exact ⟨rfl, fun hnodup => List.nodup_cons.2 ⟨hmem, hnodup⟩⟩

end PatchRegistry

/-- From a world where an action starts it comes to an outcome, and on the way it claims the destinations in order.
Either the last of them has been claimed before, and that is the error, or all of them are claimed. -/
def Claims (ds : List Path) (w : World σ) (result : Except Error α × World σ) : Prop :=
  (∃ before p, ds = before ++ [p] ∧ result.1 = .error (.patchCollision p) ∧
    w.patches.Extends result.2.patches before ∧ p.components ∈ result.2.patches.claimed) ∨
  (∀ p, result.1 ≠ .error (.patchCollision p)) ∧ w.patches.Extends result.2.patches ds

section

variable {a : Action σ α} {f : α → Action σ β} {ds ds' : List Path}

theorem Claims.of_patches_eq {result : Except Error α × World σ} (herror : ∀ p, result.1 ≠ .error (.patchCollision p))
    (h : result.2.patches = w.patches) : Claims [] w result :=
  .inr ⟨herror, h ▸ .refl _⟩

theorem Claims.bind_ok {x : α} {w' : World σ} (hx : a.perform w = (.ok x, w')) (ha : Claims ds w (a.perform w))
    (hf : Claims ds' w' ((f x).perform w')) : Claims (ds ++ ds') w ((a >>= f).perform w) := by
  rw [hx] at ha
  rw [Action.perform_bind_ok (congrArg Prod.fst hx), hx]
  rcases ha with ⟨_, _, _, herror, _⟩ | ⟨-, hbefore⟩
  · cases herror
  · rcases hf with ⟨before, p, rfl, herror, hextends, hmem⟩ | ⟨hnone, hextends⟩
    · exact .inl ⟨ds ++ before, p, (List.append_assoc _ _ _).symm, herror, hbefore.trans hextends, hmem⟩
    · exact .inr ⟨hnone, hbefore.trans hextends⟩

theorem Claims.bind_error {e : Error} {w' : World σ} (he : a.perform w = (.error e, w'))
    (ha : Claims ds w (a.perform w)) : Claims ds w ((a >>= f).perform w) := by
  rw [he] at ha
  rw [Action.perform_bind_error (congrArg Prod.fst he), he]
  rcases ha with ⟨before, p, hds, herror, hextends, hmem⟩ | ⟨hnone, hextends⟩
  · cases herror
    exact .inl ⟨before, p, hds, rfl, hextends, hmem⟩
  · refine .inr ⟨fun p hp => hnone p ?_, hextends⟩
    cases hp
    rfl

/-- What follows may claim nothing. -/
theorem Claims.bind (ha : Claims ds w (a.perform w)) (hf : ∀ x w', Claims [] w' ((f x).perform w')) :
    Claims ds w ((a >>= f).perform w) := by
  rcases hperform : a.perform w with ⟨e | x, w'⟩
  · exact ha.bind_error hperform
  · rw [← List.append_nil ds]
    exact ha.bind_ok hperform (hf x w')

end

/-- No error with which the action fails is a collision, and it claims nothing. -/
theorem Action.Confined.claims {E : Error → Prop} {a : Action σ α} (h : Confined (·.patches = w.patches) E a)
    (hE : ∀ e, E e → e.isFatal = false) : Claims [] w (a.perform w) := by
  obtain ⟨hkept, herror⟩ := h w rfl
  refine .of_patches_eq (fun p hp => ?_) hkept
  cases hE _ (herror _ hp)

namespace Job

/-! ### The destinations of a run -/

/-- The destinations that are to be claimed while patches are emitted, up to the first error. -/
def patchDestinations (directory : Path) : List Patch → World σ → List Path
  | [], _ => []
  | q :: patches, w =>
    directory / q.fileName ::
      match (emitPatch directory q).perform w with
      | (.ok _, w') => patchDestinations directory patches w'
      | (.error _, _) => []

/-- The destinations that are to be claimed while the files of a package are emitted, the recipe first. -/
def draftDestinations (d : Draft) (w : World σ) : List Path :=
  match (Action.emit d.outputFile d.text.toUTF8).perform w with
  | (.ok _, w') => patchDestinations d.directory d.patches w'
  | (.error _, _) => []

/-- The destinations that are to be claimed while the package of a manifest is generated. -/
def packageDestinations (job : Job σ) (path : Path) (w : World σ) : List Path :=
  match (job.prepare path).perform w with
  | (.ok d, w') => draftDestinations d w'
  | (.error _, _) => []

/-- The destinations that are to be claimed while the packages of some manifests are generated. -/
def sourceDestinations (job : Job σ) : List Path → Report → World σ → List Path
  | [], _, _ => []
  | path :: sources, r, w =>
    job.packageDestinations path w ++
      match (job.addPackage r path).perform w with
      | (.ok r', w') => job.sourceDestinations sources r' w'
      | (.error _, _) => []

/-- The destinations that are to be claimed in a run, in order, up to the end of the run. -/
def destinations (job : Job σ) (start : World σ) : List Path :=
  job.sourceDestinations job.configuration.sources {} { start with answers := ∅ }

/-! ### What a run claims -/

private theorem keeps_patches {claimed : PatchRegistry} (w w' : World σ) (h : w.patches = claimed)
    (h' : w'.OutputOf w) : w'.patches = claimed := h'.patches.trans h

private theorem claims_emit (p : Path) (content : ByteArray) (w : World σ) :
    Claims [] w ((Action.emit p content).perform w) :=
  Confined.claims (confined_emit keeps_patches fun _ h => h) fun _ h => h.isFatal

theorem claims_emitPatch (directory : Path) (q : Patch) (w : World σ) :
    Claims [directory / q.fileName] w ((emitPatch directory q).perform w) := by
  rw [perform_emitPatch]
  cases hclaim : w.patches.claim? (directory / q.fileName) with
  | none => exact .inl ⟨[], _, rfl, rfl, .refl _, PatchRegistry.claim?_eq_none_iff.1 hclaim⟩
  | some patches =>
    dsimp only
    rcases claims_emit (directory / q.fileName) q.content { w with patches } with
      ⟨before, p, hds, -⟩ | ⟨hnone, hextends⟩
    · exact absurd hds.symm (by simp)
    · exact .inr ⟨hnone, (PatchRegistry.extends_of_claim? hclaim).trans hextends⟩

theorem claims_patches (directory : Path) (patches : List Patch) (w : World σ) :
    Claims (patchDestinations directory patches w) w ((patches.forM (emitPatch directory)).perform w) := by
  induction patches generalizing w with
  | nil => exact .inr ⟨nofun, .refl _⟩
  | cons q patches ih =>
    have hq := claims_emitPatch directory q w
    rw [Action.forM_cons]
    unfold patchDestinations
    rcases hperform : (emitPatch directory q).perform w with ⟨e | ⟨⟩, w'⟩
    · exact hq.bind_error hperform
    · exact hq.bind_ok hperform (ih w')

private theorem claims_emitDraft (d : Draft) (w : World σ) :
    Claims (draftDestinations d w) w ((emitDraft d).perform w) := by
  have hlast : ∀ (g : GeneratedPackage) (w : World σ), Claims [] w (Action.perform (do
      announce d
      return g) w) :=
    fun g w => Confined.claims ((confined_announce w.patches d).bind fun _ => .pure g) fun _ h => h.elim
  have hemit := claims_emit d.outputFile d.text.toUTF8 w
  unfold emitDraft draftDestinations
  rcases hperform : (Action.emit d.outputFile d.text.toUTF8).perform w with ⟨e | ⟨⟩, w'⟩
  · exact hemit.bind_error hperform
  · refine hemit.bind_ok hperform ?_
    exact (claims_patches d.directory d.patches w').bind fun _ w'' => hlast _ w''

section

variable {job : Job σ} (h : job.runner.NeverFatal)

include h

theorem claims_package (path : Path) (w : World σ) :
    Claims (job.packageDestinations path w) w ((job.package path).perform w) := by
  have hprepare : Claims [] w ((job.prepare path).perform w) := by
    refine Confined.claims (fun w' hw' => ?_) fun _ he => he
    obtain ⟨hkept, herror⟩ := harmless_prepare h path w' (.refl w')
    exact ⟨hkept.patches.symm.trans hw', herror⟩
  unfold package packageDestinations
  rcases hperform : (job.prepare path).perform w with ⟨e | d, w'⟩
  · exact hprepare.bind_error hperform
  · exact hprepare.bind_ok hperform (claims_emitDraft d w')

theorem claims_addPackage (r : Report) (path : Path) (w : World σ) :
    Claims (job.packageDestinations path w) w ((job.addPackage r path).perform w) := by
  have hpackage := claims_package h path w
  rw [perform_addPackage]
  generalize (job.package path).perform w = result at hpackage
  obtain ⟨e | p, w'⟩ := result
  · rcases hpackage with ⟨before, p, hds, herror, hclaimed⟩ | ⟨hnone, hextends⟩
    · cases herror
      exact .inl ⟨before, p, hds, rfl, hclaimed⟩
    · have hfatal : ¬ e.isFatal = true := fun hfatal => by
        obtain ⟨p, rfl⟩ := Error.isFatal_iff.1 hfatal
        exact hnone p rfl
      dsimp only
      rw [if_neg hfatal]
      exact .inr ⟨nofun, hextends⟩
  · rcases hpackage with ⟨_, _, _, herror, _⟩ | ⟨-, hextends⟩
    · cases herror
    · exact .inr ⟨nofun, hextends⟩

theorem claims_sources (sources : List Path) (r : Report) (w : World σ) :
    Claims (job.sourceDestinations sources r w) w ((sources.foldlM job.addPackage r).perform w) := by
  induction sources generalizing r w with
  | nil => exact .inr ⟨nofun, .refl _⟩
  | cons path sources ih =>
    have hpath := claims_addPackage h r path w
    rw [List.foldlM_cons]
    unfold sourceDestinations
    rcases hperform : (job.addPackage r path).perform w with ⟨e | r', w'⟩
    · dsimp only
      rw [List.append_nil]
      exact hpath.bind_error hperform
    · exact hpath.bind_ok hperform (ih r' w')

/-- A run claims its destinations. -/
theorem claims_run (start : World σ) : Claims (job.destinations start) start (job.run.perform start) := by
  have hrest : ∀ (r : Report) (w : World σ), Claims [] w (Action.perform (do
      job.topLevel r.packages
      return r) w) :=
    fun r w => Confined.claims ((confined_topLevel w.patches r.packages).bind fun _ => .pure r) fun _ he => he.isFatal
  have hconclude : ∀ (r : Report) (w : World σ), Claims [] w ((conclude r).perform w) :=
    fun r w => Confined.claims (confined_conclude w.patches r) fun _ h => h.elim
  have hgenerate : ∀ w : World σ,
      Claims (job.sourceDestinations job.configuration.sources {} w) w (job.generate.perform w) :=
    fun w => (claims_sources h job.configuration.sources {} w).bind fun r w' => hrest r w'
  have hstart : Claims (job.destinations start) { start with answers := ∅ }
      (Action.perform (job.generate >>= conclude) { start with answers := ∅ }) :=
    (hgenerate _).bind hconclude
  exact hstart

end

/-! ### Collisions -/

/-- Where and how a run ends with a collision. -/
structure Collision (job : Job σ) (start : World σ) (p : Path) where
  before : List Path
  path : Path
  after : List Path
  sources : job.configuration.sources = before ++ path :: after
  report : Report
  turn : World σ
  /-- The manifests before were processed. -/
  processed : (before.foldlM job.addPackage {}).perform { start with answers := ∅ } = (.ok report, turn)
  draft : Draft
  ready : World σ
  prepared : (job.prepare path).perform turn = (.ok draft, ready)
  first : List Patch
  patch : Patch
  rest : List Patch
  patches : draft.patches = first ++ patch :: rest
  destination : draft.directory / patch.fileName = p
  stop : World σ
  /-- The recipe and the patches before were emitted. -/
  emits : Action.perform (do
    Action.emit draft.outputFile draft.text.toUTF8
    first.forM (emitPatch draft.directory)) ready = (.ok (), stop)
  claimed : p.components ∈ stop.patches.claimed
  /-- Nothing else was done, but the collision was remarked on. -/
  finish : (job.run.perform start).2 =
    { stop with log := stop.log ++ [⟨.error, (Error.patchCollision p).message⟩] }
  emitted : stop.emitted = turn.emitted ++ ⟨draft.outputFile, draft.text.toUTF8, false⟩ ::
    first.map fun q => ⟨draft.directory / q.fileName, q.content, false⟩

section

variable {job : Job σ} {start w' : World σ} {p : Path}

private theorem collision_of_emitPatch {directory : Path} {q : Patch}
    (h : (emitPatch directory q).perform w = (.error (.patchCollision p), w')) :
    w' = w ∧ directory / q.fileName = p ∧ p.components ∈ w.patches.claimed := by
  rw [perform_emitPatch] at h
  cases hclaim : w.patches.claim? (directory / q.fileName) with
  | none =>
    rw [hclaim] at h
    cases h
    exact ⟨rfl, rfl, PatchRegistry.claim?_eq_none_iff.1 hclaim⟩
  | some patches =>
    rw [hclaim] at h
    cases (emit_error (congrArg Prod.fst h)).isFatal

/-- A package collides after its recipe and some of its patches. -/
private theorem collision_of_emitDraft {d : Draft}
    (h : (emitDraft d).perform w = (.error (.patchCollision p), w')) :
    ∃ first q rest, d.patches = first ++ q :: rest ∧ d.directory / q.fileName = p ∧
      p.components ∈ w'.patches.claimed ∧
      Action.perform (do
        Action.emit d.outputFile d.text.toUTF8
        first.forM (emitPatch d.directory)) w = (.ok (), w') := by
  rcases Action.bind_error_cases h with hemit | ⟨⟨⟩, v, hemit, hrest⟩
  · cases (emit_error (congrArg Prod.fst hemit)).isFatal
  · rcases Action.bind_error_cases hrest with hpatches | ⟨⟨⟩, v', -, hlast⟩
    · obtain ⟨first, q, rest, v', hsplit, hfirst, hq⟩ := Action.forM_error hpatches
      obtain ⟨rfl, hdestination, hclaimed⟩ := collision_of_emitPatch hq
      refine ⟨first, q, rest, hsplit, hdestination, hclaimed, ?_⟩
      rw [Action.perform_bind_ok (congrArg Prod.fst hemit), hemit]
      exact hfirst
    · rcases Action.bind_error_cases hlast with hannounce | ⟨⟨⟩, v'', -, hreturn⟩
      · exact ((confined_announce v'.patches d v' rfl).2 _ (congrArg Prod.fst hannounce)).elim
      · cases hreturn

variable (h : job.runner.NeverFatal)

include h

/-- A run that ends with a collision ends at a patch. -/
theorem nonempty_collision (hrun : (job.run.perform start).1 = .error (.patchCollision p)) :
    Nonempty (Collision job start p) := by
  have hgenerate := error_of_run hrun
  rcases Action.bind_error_cases hgenerate with hsources | ⟨r, v, -, hrest⟩
  · obtain ⟨before, path, after, report, turn, hsplit, hbefore, hpath⟩ := Action.foldlM_error hsources
    obtain ⟨stop, hpackage, -, hfinish⟩ := error_of_addPackage hpath
    rcases Action.bind_error_cases hpackage with hprepare | ⟨draft, ready, hprepare, hdraft⟩
    · cases (harmless_prepare h path turn (.refl turn)).2 _ (congrArg Prod.fst hprepare)
    · obtain ⟨first, patch, rest, hpatches, hdestination, hclaimed, hemits⟩ := collision_of_emitDraft hdraft
      refine ⟨⟨before, path, after, hsplit, report, turn, hbefore, draft, ready, hprepare, first, patch, rest, hpatches,
        hdestination, stop, hemits, hclaimed, hfinish, ?_⟩⟩
      -- Nothing was emitted while the package was prepared.
      obtain ⟨⟨⟩, v, hrecipe, hfirst⟩ := Action.bind_ok_cases hemits
      have hready := (harmless_prepare h path turn (.refl turn)).1.emitted
      obtain ⟨hemitted, -⟩ := Action.emitted_emit draft.outputFile draft.text.toUTF8 ready
      rw [hprepare] at hready
      rw [hrecipe] at hemitted
      rw [emitted_patches hfirst, hemitted, ← hready, List.append_assoc]
      rfl
  · rcases Action.bind_error_cases hrest with htop | ⟨⟨⟩, v', -, hreturn⟩
    · cases ((confined_topLevel v.patches r.packages v rfl).2 _ (congrArg Prod.fst htop)).isFatal
    · cases hreturn

/-- The first of some destinations that equals one before it, component by component. -/
def FirstRepeated (ds : List Path) (p : Path) : Prop :=
  ∃ before after, ds = before ++ p :: after ∧ (before.map Path.components).Nodup ∧
    p.components ∈ before.map Path.components

omit h in
private theorem not_nodup_of_firstRepeated {ds : List Path} (hp : FirstRepeated ds p) :
    ¬ (ds.map Path.components).Nodup := by
  obtain ⟨before, after, rfl, -, hmem⟩ := hp
  rw [List.map_append, List.map_cons, List.nodup_append]
  rintro ⟨-, -, hdisjoint⟩
  exact hdisjoint _ hmem _ List.mem_cons_self rfl

/-- Each destination is claimed at most once in a run that starts with nothing claimed:

* The run ends with a collision exactly at the first destination that equals one before it.
* Then no later manifest was looked at, and nothing was emitted but what had been emitted before the collision.
* Otherwise the destinations are distinct, and the registry holds just these.
* A patch whose file could not be emitted has claimed its destination. -/
theorem destinations_claimed_once (hstart : start.patches = {}) :
    (∀ p, (job.run.perform start).1 = .error (.patchCollision p) ↔ FirstRepeated (job.destinations start) p) ∧
    (∀ p, (job.run.perform start).1 = .error (.patchCollision p) → Nonempty (Collision job start p)) ∧
    ((∀ p, (job.run.perform start).1 ≠ .error (.patchCollision p)) →
      ((job.destinations start).map Path.components).Nodup ∧
      (job.run.perform start).2.patches.claimed = ((job.destinations start).map Path.components).reverse) ∧
    ∀ (directory : Path) (q : Patch) (w : World σ) (e : Error), ((emitPatch directory q).perform w).1 = .error e →
      (∀ p, e ≠ .patchCollision p) →
      (directory / q.fileName).components ∈ ((emitPatch directory q).perform w).2.patches.claimed := by
  have hfresh : ∀ {r : PatchRegistry} {ds : List Path}, start.patches.Extends r ds →
      r.claimed = (ds.map Path.components).reverse ∧ (ds.map Path.components).Nodup := by
    intro r ds hextends
    rw [hstart] at hextends
    have hclaimed : r.claimed = (ds.map Path.components).reverse := by
      rw [hextends.claimed]
      exact List.append_nil _
    refine ⟨hclaimed, ?_⟩
    rw [← (List.reverse_perm _).nodup_iff, ← hclaimed]
    exact hextends.nodup .nil
  have hrun := claims_run h start
  refine ⟨fun p => ⟨fun hp => ?_, fun hp => ?_⟩, fun p hp => nonempty_collision h hp, fun hnone => ?_, ?_⟩
  · rcases hrun with ⟨before, p', hds, hp', hextends, hmem⟩ | ⟨hnone, -⟩
    · rw [hp] at hp'
      cases hp'
      obtain ⟨hclaimed, hnodup⟩ := hfresh hextends
      rw [hclaimed, List.mem_reverse] at hmem
      exact ⟨before, [], hds, hnodup, hmem⟩
    · exact absurd hp (hnone p)
  · rcases hrun with ⟨before, p', hds, hp', hextends, -⟩ | ⟨-, hextends⟩
    · -- The destination that was claimed before is the last one, and those before it are distinct.
      obtain ⟨first, rest, hds', hnodup, hmem⟩ := hp
      rw [hds] at hds'
      rcases List.eq_nil_or_concat rest with rfl | ⟨rest, last, rfl⟩
      · obtain ⟨-, hsame⟩ := List.append_inj' hds' rfl
        rw [hp', List.head_eq_of_cons_eq hsame]
      · rw [List.concat_eq_append, ← List.cons_append, ← List.append_assoc] at hds'
        obtain ⟨rfl, -⟩ := List.append_inj' hds' rfl
        exact absurd (hfresh hextends).2 (not_nodup_of_firstRepeated ⟨first, rest, rfl, hnodup, hmem⟩)
    · exact absurd (hfresh hextends).2 (not_nodup_of_firstRepeated hp)
  · rcases hrun with ⟨before, p', -, hp', -⟩ | ⟨-, hextends⟩
    · exact absurd hp' (hnone p')
    · exact (hfresh hextends).symm
  · intro directory q w e he hnone
    rcases claims_emitPatch directory q w with ⟨before, p', -, hp', -⟩ | ⟨-, hextends⟩
    · rw [he] at hp'
      exact absurd (Except.error.inj hp') (hnone p')
    · rw [hextends.claimed]
      exact List.mem_cons_self

end

/-! ### Two patches of one name -/

/-- Packages of a repository whose local commits have patches of one name. -/
def fourCommits : Job Unit where
  configuration := {
    sources := [⟨"a/package.xml"⟩, ⟨"b/package.xml"⟩], fetch := true, patches := true
    overlay := false, shell := false }
  database := .nothing
  runner := Provenance.fourCommitsRunner
  year := "2024"

private theorem neverFatal_fourCommits : fourCommits.runner.NeverFatal := by
  intro c s t e he
  simp only [fourCommits, Provenance.fourCommitsRunner] at he
  split at he <;> cases he

/-- The second patch of the first package collides with the first one. -/
theorem collision_of_fourCommits :
    let w : World Unit := { tools := (), files := ⟨⟨[
      (["a"], .directory),
      (["a", "package.xml"], .file "<package><name>a</name><version>1</version></package>".toUTF8 false)]⟩, []⟩ }
    (fourCommits.run.perform w).1 = .error (.patchCollision ⟨"a/0001-Fix.patch"⟩) ∧
      (fourCommits.run.perform w).2.emitted.map (·.path) = [⟨"a/package.nix"⟩, ⟨"a/0001-Fix.patch"⟩] := by
  intro w
  have hfresh : w.patches = {} := rfl
  obtain ⟨hcollides, -⟩ := destinations_claimed_once neverFatal_fourCommits hfresh
  have hdestinations : fourCommits.destinations w = [⟨"a/0001-Fix.patch"⟩, ⟨"a/0001-Fix.patch"⟩] := by
    decide +kernel
  have hemitted : (fourCommits.run.perform w).2.emitted.map (·.path) = [⟨"a/package.nix"⟩, ⟨"a/0001-Fix.patch"⟩] := by
    decide +kernel
  refine ⟨(hcollides _).2 ?_, hemitted⟩
  exact ⟨[⟨"a/0001-Fix.patch"⟩], [], hdestinations, by decide +kernel, by decide +kernel⟩

end Job

end RosRecipes
