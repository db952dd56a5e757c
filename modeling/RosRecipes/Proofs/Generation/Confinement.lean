import RosRecipes.Generation.Package
import RosRecipes.Proofs.Provenance.Confinement
import RosRecipes.Proofs.Rosdep.Answers

/-!
# Preparing a package within bounds

Between its programs and its lookups, the preparation of a package changes no more than files, remarks and caches, and
it throws no error that ends a run.  So what programs and lookups keep is kept by the whole preparation, and it fails
only as they do, if these errors are allowed (`Job.confined_prepare`).  What depends on caches and fetches is kept if
the search for the source keeps it (`Job.confined_prepare_of_resolve`).
-/

namespace RosRecipes

open Action (Confined)

variable {σ α β : Type} {I : World σ → Prop} {E : Error → Prop}

/-- Calls of programs that fetch nothing keep `I`, and fail with `E` only.  Files and remarks do not matter for `I`, and
`E` allows all errors that do not end a run. -/
structure Runner.ConfinesOthers (runner : Runner σ) (I : World σ → Prop) (E : Error → Prop) : Prop where
  call : ∀ c, c.program ≠ "nix-prefetch-git" → Confined I E (Action.call runner c)
  minor : ∀ e, e.isFatal = false → E e
  files : ∀ w files, I w → I { w with files }
  log : ∀ w log, I w → I { w with log }

/-- Calls of programs keep `I`, and fail with `E` only.  Files, remarks and caches do not matter for `I`, and `E` allows
all errors that do not end a run. -/
structure Runner.Confines (runner : Runner σ) (I : World σ → Prop) (E : Error → Prop) : Prop where
  call : ∀ c, Confined I E (Action.call runner c)
  minor : ∀ e, e.isFatal = false → E e
  files : ∀ w files, I w → I { w with files }
  log : ∀ w log, I w → I { w with log }
  runCache : ∀ w runCache, I w → I { w with runCache }
  storedCache : ∀ w storedCache, I w → I { w with storedCache }

theorem Runner.Confines.others {runner : Runner σ} (h : runner.Confines I E) : runner.ConfinesOthers I E :=
  { h with call := fun c _ => h.call c }

/-! ### Names -/

section

variable {runner : Runner σ} (h : runner.ConfinesOthers I E)

include h

theorem Runner.ConfinesOthers.ask (distribution name system : String) :
    Confined I E (Rosdep.Database.ask runner distribution name system) := by
  have hother : "rosdep" ≠ "nix-prefetch-git" := by decide
  refine (h.call _ hother).attempt_bind fun answer hanswer => .ofExcept fun e he => ?_
  match answer with
  | .ok output => cases he
  | .error e' =>
    -- An answer that means nothing is passed on as it is.
    refine hanswer e ?_
    cases e' <;> try exact congrArg Except.error (Except.error.inj he)
    unfold Rosdep.lookupOfAnswer at he
    dsimp only at he
    split at he
    · cases he
    · exact congrArg Except.error (Except.error.inj he)

/-- Lookups keep what does not depend on the answers that are remembered. -/
theorem Runner.ConfinesOthers.lookup (hanswers : ∀ w answers, I w → I { w with answers }) (db : Rosdep.Database)
    (name : String) : Confined I E (db.lookup runner name Rosdep.targetSystem) := by
  rcases db.knows_or_tool with ⟨f, hknown⟩ | ⟨distribution, rfl⟩
  · rw [Rosdep.Database.lookup_of_knows hknown]
    exact .pure _
  · refine .get fun w _ => ?_
    cases w.answers.get? name with
    | some lookup => exact .pure lookup
    | none => exact (h.ask _ _ _).bind fun lookup => .bind (.modify fun w hw => hanswers w _ hw) fun _ => .pure lookup

theorem Runner.ConfinesOthers.repository (r : Repository) : r.Confines runner I E :=
  ⟨fun _ _ => h.call _ (show "git" ≠ "nix-prefetch-git" by decide), h.minor, h.files⟩

variable {db : Rosdep.Database} (hlookup : ∀ name, Confined I E (db.lookup runner name Rosdep.targetSystem))

include hlookup

theorem Manifest.confined_resolveName (m : Manifest) (role : Role) (name : String) :
    Confined I E (m.resolveName db runner role name) := by
  refine .bind (.bind (hlookup name) fun _ => .pure _) fun packages => ?_
  cases packages with
  | none => exact .throw (h.minor _ rfl)
  | some packages => exact .pure packages

theorem Manifest.confined_resolveRoles (m : Manifest) (ctx : Condition.Context) (roles : List Role) :
    Confined I E (m.resolveRoles db runner ctx roles) :=
  .foldlM (fun _ role => .foldlM (fun _ name => (confined_resolveName h hlookup m role name).bind fun _ => .pure _) _ _)
    _ _

end

/-! ### Sources -/

section

variable {runner : Runner σ} (h : runner.Confines I E)

include h

private theorem confined_prefetch (location : Path) (revision : String) (directory : Option String) :
    Confined I E (prefetch runner location revision directory) := by
  refine .bind (.remark h.log _ _) fun _ => (h.call _).bind fun output => ?_
  cases Prefetched.parse? output.stdout with
  | none => exact .throw (h.minor _ rfl)
  | some result =>
    dsimp only
    by_cases hrevision : result.revision ≠ revision
    · rw [if_pos hrevision]
      exact .bind (.remark h.log _ _) fun _ => .pure result
    · rw [if_neg hrevision]
      exact .pure result

private theorem confined_hashStored (key : String) (toplevel : Path) (revision : String) (directory : Option String) :
    Confined I E (Provenance.hashStored runner key toplevel revision directory) := by
  refine .get fun w _ => ?_
  cases w.storedCache.bind (·.get? key revision) with
  | some result => exact .pure result
  | none =>
    exact (confined_prefetch h toplevel revision directory).bind fun result =>
      .bind (.modify fun w hw => h.storedCache w _ hw) fun _ => .pure result

private theorem confined_hash (c : Checkout) (perPackage : Bool) :
    Confined I E (Provenance.hash runner c perPackage) := by
  cases perPackage with
  | true => exact confined_hashStored h _ _ _ _
  | false =>
    refine .get fun w _ => ?_
    cases w.runCache.get? c.toplevel c.revision with
    | some result => exact .pure result
    | none =>
      exact (confined_hashStored h _ _ _ _).bind fun result =>
        .bind (.modify fun w hw => h.runCache w _ hw) fun _ => .pure result

theorem Runner.Confines.resolve (directory : Path) (options : Provenance.Options) :
    Confined I E (Provenance.resolve runner directory options) := by
  have hgit := h.others.repository ⟨directory⟩
  have hinspect := hgit.inspect (fun _ _ => h.call _) options.perPackage
  refine hinspect.bind fun c => (confined_hash h c options.perPackage).bind fun _ => ?_
  refine (hgit.localPatches c.revision options.patches).bind fun _ => ?_
  exact (Provenance.confined_warnOfDropped h.log c _).bind fun _ => .pure _

end

/-! ### Packages -/

namespace Job

variable {job : Job σ}

theorem confined_sourceOf
    (hresolve : ∀ directory,
      Confined I E (Provenance.resolve job.runner directory job.configuration.provenanceOptions)) (path : Path) :
    Confined I E (job.sourceOf path) := by
  unfold sourceOf
  dsimp only
  cases job.configuration.sourceParameter with
  | some name => exact .pure _
  | none =>
    cases job.configuration.fetch with
    | true => exact (hresolve _).bind fun _ => .pure _
    | false => exact .get fun _ _ => .pure _

section

variable (h : job.runner.ConfinesOthers I E)

include h

theorem confined_readManifest (path : Path) : Confined I E (readManifest path) := by
  refine .get fun w _ => ?_
  cases w.files.readText path with
  | error fault => exact .throw (h.minor _ rfl)
  | ok content =>
    refine .ofExcept fun e he => h.minor e ?_
    cases hparse : Manifest.parse content with
    | error fault =>
      rw [hparse] at he
      cases he
      rfl
    | ok manifest =>
      rw [hparse] at he
      cases he

theorem confined_recipeText (r : Recipe) : Confined I E (job.recipeText r) := by
  unfold recipeText
  cases job.configuration.nixfmt with
  | true => exact (h.call _ (show "nixfmt" ≠ "nix-prefetch-git" by decide)).bind fun _ => .pure _
  | false => exact .pure _

variable (hlookup : ∀ name, Confined I E (job.database.lookup job.runner name Rosdep.targetSystem))

include hlookup

theorem confined_inputsOf (m : Manifest) : Confined I E (job.inputsOf m) := by
  have hroles : ∀ roles, Confined I E (m.resolveRoles job.database job.runner job.context roles) :=
    fun roles => Manifest.confined_resolveRoles h hlookup m _ roles
  refine .bind ?_ fun _ => .pure _
  exact (hroles _).bind fun _ => (hroles _).bind fun _ => (hroles _).bind fun _ => (hroles _).bind fun _ => .pure _

/-- What programs, lookups and the search for the source keep is kept while a package is prepared. -/
theorem confined_prepare_of_resolve
    (hresolve : ∀ directory,
      Confined I E (Provenance.resolve job.runner directory job.configuration.provenanceOptions)) (path : Path) :
    Confined I E (job.prepare path) := by
  refine (confined_readManifest h path).bind fun manifest => ?_
  refine (confined_inputsOf h hlookup manifest).bind fun inputs => ?_
  exact (confined_sourceOf hresolve path).bind fun source => (confined_recipeText h _).bind fun _ => .pure _

end

/-- What programs and lookups keep is kept while a package is prepared. -/
theorem confined_prepare (h : job.runner.Confines I E)
    (hlookup : ∀ name, Confined I E (job.database.lookup job.runner name Rosdep.targetSystem)) (path : Path) :
    Confined I E (job.prepare path) :=
  confined_prepare_of_resolve h.others hlookup (fun _ => h.resolve _ _) path

end Job

end RosRecipes
