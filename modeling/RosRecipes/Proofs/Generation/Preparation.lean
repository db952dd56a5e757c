import RosRecipes.Generation.Package
import RosRecipes.Proofs.Provenance.Patches
import RosRecipes.Proofs.Rosdep.Answers

/-!
# Preparing alike

What is prepared for a package depends on its manifest, on what is found out about names and sources, and on what
programs answer.  A relation between worlds that covers these has the package prepared the same in both
(`Agrees.coupled_prepare`).

* Two runs that remember the same and read the same manifest prepare the same, whatever else is in their file trees
  (`coupled_prepare`), and neither emits anything meanwhile (`beside_prepare`).
-/

namespace RosRecipes

open Action (Coupled Settled)
open FileTree (Same)

variable {σ α : Type} {u v u₀ v₀ u' v' w : World σ}

/-! ### Worlds -/

/-- The worlds have the same files and the same emissions. -/
structure World.Beside (u v : World σ) : Prop where
  files : u.files.Same v.files
  mode : u.mode = v.mode
  outOfDate : u.outOfDate = v.outOfDate
  emitted : u.emitted = v.emitted

theorem World.Beside.refl (w : World σ) : w.Beside w := ⟨.refl _, rfl, rfl, rfl⟩

theorem World.Beside.trans (h : u.Beside v) (h' : v.Beside w) : u.Beside w :=
  ⟨h.files.trans h'.files, h.mode.trans h'.mode, h.outOfDate.trans h'.outOfDate, h.emitted.trans h'.emitted⟩

theorem World.Near.beside (h : u.Near Same v) : u.Beside v :=
  ⟨h.files, h.mode, h.outOfDate, h.emitted⟩

/-- The worlds remember the same. -/
structure World.Alike (u v : World σ) : Prop where
  home : u.files.home = v.files.home
  answers : u.answers = v.answers
  runCache : u.runCache = v.runCache
  storedCache : u.storedCache = v.storedCache
  patches : u.patches = v.patches

theorem World.Alike.refl (w : World σ) : w.Alike w := ⟨rfl, rfl, rfl, rfl, rfl⟩

theorem World.Alike.symm (h : u.Alike v) : v.Alike u :=
  ⟨h.home.symm, h.answers.symm, h.runCache.symm, h.storedCache.symm, h.patches.symm⟩

theorem World.Alike.trans (h : u.Alike v) (h' : v.Alike w) : u.Alike w :=
  ⟨h.home.trans h'.home, h.answers.trans h'.answers, h.runCache.trans h'.runCache,
    h.storedCache.trans h'.storedCache, h.patches.trans h'.patches⟩

/-- The worlds remember the same, and each has the files and emissions of the one where it comes from. -/
structure World.Abreast (u₀ v₀ u v : World σ) : Prop where
  left : u.Beside u₀
  right : v.Beside v₀
  alike : u.Alike v

theorem World.Abreast.trans (h : World.Abreast u₀ v₀ u v) (hu : u'.Beside u) (hv : v'.Beside v)
    (halike : u'.Alike v') : World.Abreast u₀ v₀ u' v' :=
  ⟨hu.trans h.left, hv.trans h.right, halike⟩

private theorem coupled_of_settled {a : Action σ α} (h : Settled Same a) : Coupled (World.Abreast u₀ v₀) a a := by
  refine h.coupled fun u v u' v' huv hu hv => huv.trans hu.beside hv.beside ⟨?_, ?_, ?_, ?_, ?_⟩
  · rw [hu.files.home, hv.files.home, huv.alike.home]
  · rw [hu.answers, hv.answers, huv.alike.answers]
  · rw [hu.runCache, hv.runCache, huv.alike.runCache]
  · rw [hu.storedCache, hv.storedCache, huv.alike.storedCache]
  · rw [hu.patches, hv.patches, huv.alike.patches]

/-! ### What has to agree -/

/-- In worlds that are related, a package reads the same manifest, and names and hashes are found to be the same. -/
structure Job.Agrees (job : Job σ) (path : Path) (R : World σ → World σ → Prop) : Prop where
  settled : ∀ {α : Type} {a : Action σ α}, Settled Same a → Coupled R a a
  home : ∀ u v, R u v → u.files.home = v.files.home
  manifest : ∀ u v, R u v → u.files.readText path = v.files.readText path
  lookup : ∀ name, Coupled R (job.database.lookup job.runner name Rosdep.targetSystem)
    (job.database.lookup job.runner name Rosdep.targetSystem)
  hash : ∀ c, Coupled R (Provenance.hash job.runner c job.configuration.perPackage)
    (Provenance.hash job.runner c job.configuration.perPackage)

section

variable {runner : Runner σ} (h : runner.Steady)

include h

theorem settled_call {c : Command} (hc : c.program ≠ "git") : Settled Same (Action.call runner c) := by
  have hplain : ¬ c.WritesPatch := fun hpatch => hc hpatch.1
  exact .call (fun s t s' t' => h.answer c s t s' t' hplain) fun s t => h.leaves c s t hplain

theorem settled_prefetch (toplevel : Path) (revision : String) (directory : Option String) :
    Settled Same (prefetch runner toplevel revision directory) := by
  have hT := FileTree.same_equivalence
  refine .bind hT (.remark hT _ _) fun _ => .bind hT (settled_call h (by simp [prefetchCommand])) fun output => ?_
  cases Prefetched.parse? output.stdout with
  | none => exact .throw hT _
  | some result =>
    dsimp only
    by_cases hrevision : result.revision = revision
    · rw [if_neg (not_not_intro hrevision)]
      exact .pure hT result
    · rw [if_pos hrevision]
      exact .bind hT (.remark hT _ _) fun _ => .pure hT result

theorem settled_askTool (distribution name system : String) :
    Settled Same (Rosdep.Database.ask runner distribution name system) :=
  (settled_call h (by simp [Rosdep.question])).attempt.bind FileTree.same_equivalence fun _ =>
    .ofExcept FileTree.same_equivalence _

end

namespace Job.Agrees

variable {job : Job σ} {path : Path} {R : World σ → World σ → Prop} (hR : job.Agrees path R)

include hR

private theorem coupled_inputsOf (m : Manifest) : Coupled R (job.inputsOf m) (job.inputsOf m) := by
  have hname : ∀ role name, Coupled R (m.resolveName job.database job.runner role name)
      (m.resolveName job.database job.runner role name) := by
    refine fun role name => .bind (.bind (hR.lookup name) fun _ => .pure _) fun packages => ?_
    cases packages with
    | none => exact .throw _
    | some packages => exact .pure packages
  have hroles : ∀ roles, Coupled R (m.resolveRoles job.database job.runner job.context roles)
      (m.resolveRoles job.database job.runner job.context roles) :=
    fun roles => .foldlM (fun resolved role => .foldlM (fun _ name => (hname role name).bind fun _ => .pure _) _ _) _ _
  have hclassify : Coupled R (m.classify job.database job.runner job.context)
      (m.classify job.database job.runner job.context) :=
    (hroles _).bind fun _ => (hroles _).bind fun _ => (hroles _).bind fun _ => (hroles _).bind fun _ => .pure _
  exact hclassify.bind fun _ => .pure _

variable (h : job.runner.Steady)

include h

private theorem coupled_resolve (directory : Path) :
    Coupled R (Provenance.resolve job.runner directory job.configuration.provenanceOptions)
      (Provenance.resolve job.runner directory job.configuration.provenanceOptions) := by
  have hT := FileTree.same_equivalence
  have hgit := h.answersSettled ⟨directory⟩
  have hpatches : ∀ revision, Settled Same (Provenance.localPatches job.runner ⟨directory⟩ revision
      job.configuration.provenanceOptions.patches) := by
    intro revision
    cases job.configuration.provenanceOptions.patches with
    | true => exact settled_extractPatches hT (fun _ _ h => h) hgit h.patches revision
    | false => exact .pure hT []
  have hwarn : ∀ c drops, Settled Same (Provenance.warnOfDropped c drops : Action σ Unit) := by
    intro c drops
    cases drops with
    | true => exact .remark hT _ _
    | false => exact .pure hT ()
  refine (hR.settled (Provenance.settled_inspect hT hgit job.configuration.perPackage)).bind fun c => ?_
  refine (hR.hash c).bind fun hashed => (hR.settled (hpatches c.revision)).bind fun patches => ?_
  exact (hR.settled (hwarn c _)).bind fun _ => .pure _

private theorem coupled_sourceOf (path : Path) : Coupled R (job.sourceOf path) (job.sourceOf path) := by
  unfold sourceOf
  dsimp only
  cases job.configuration.sourceParameter with
  | some name => exact .pure _
  | none =>
    cases job.configuration.fetch with
    | true => exact (hR.coupled_resolve h _).bind fun p => .pure _
    | false =>
      refine .get fun u v huv => ?_
      unfold FileTree.homePath
      rw [hR.home u v huv]
      exact .pure _

private theorem coupled_recipeText (r : Recipe) : Coupled R (job.recipeText r) (job.recipeText r) := by
  unfold recipeText
  cases job.configuration.nixfmt with
  | true => exact (hR.settled (settled_call h (by simp [formatCommand]))).bind fun _ => .pure _
  | false => exact .pure _

/-- Where all agrees that matters, the same package is prepared. -/
theorem coupled_prepare : Coupled R (job.prepare path) (job.prepare path) := by
  have hmanifest : Coupled R (readManifest path) (readManifest path) := by
    refine .get fun u v huv => ?_
    rw [hR.manifest u v huv]
    cases v.files.readText path with
    | error fault => exact .throw _
    | ok content => exact .ofExcept _
  refine hmanifest.bind fun manifest => (hR.coupled_inputsOf manifest).bind fun inputs => ?_
  exact (hR.coupled_sourceOf h path).bind fun source => (hR.coupled_recipeText h _).bind fun text => .pure _

end Job.Agrees

/-! ### Remembering the same -/

section

variable {runner : Runner σ} (h : runner.Steady)

include h

private theorem coupled_lookup (db : Rosdep.Database) (name : String) :
    Coupled (World.Abreast u₀ v₀) (db.lookup runner name Rosdep.targetSystem)
      (db.lookup runner name Rosdep.targetSystem) := by
  rcases db.knows_or_tool with ⟨f, hknown⟩ | ⟨distribution, rfl⟩
  · rw [Rosdep.Database.lookup_of_knows hknown]
    exact .pure _
  · refine .get fun u v huv => ?_
    rw [huv.alike.answers]
    cases v.answers.get? name with
    | some lookup => exact .pure lookup
    | none =>
      refine Action.coupled_remember (coupled_of_settled (settled_askTool h _ _ _)) fun lookup u v huv => ?_
      refine huv.trans ⟨.refl _, rfl, rfl, rfl⟩ ⟨.refl _, rfl, rfl, rfl⟩ ?_
      exact { huv.alike with answers := congrArg (·.insert name lookup) huv.alike.answers }

private theorem coupled_hashStored (key : String) (toplevel : Path) (revision : String) (directory : Option String) :
    Coupled (World.Abreast u₀ v₀) (Provenance.hashStored runner key toplevel revision directory)
      (Provenance.hashStored runner key toplevel revision directory) := by
  refine .get fun u v huv => ?_
  rw [huv.alike.storedCache]
  cases v.storedCache.bind (·.get? key revision) with
  | some result => exact .pure result
  | none =>
    refine Action.coupled_remember (coupled_of_settled (settled_prefetch h _ _ _)) fun result u v huv => ?_
    refine huv.trans ⟨.refl _, rfl, rfl, rfl⟩ ⟨.refl _, rfl, rfl, rfl⟩ ?_
    exact { huv.alike with storedCache := congrArg (·.map (·.insert key result)) huv.alike.storedCache }

private theorem coupled_hash (c : Checkout) (perPackage : Bool) :
    Coupled (World.Abreast u₀ v₀) (Provenance.hash runner c perPackage) (Provenance.hash runner c perPackage) := by
  cases perPackage with
  | true => exact coupled_hashStored h _ _ _ _
  | false =>
    refine .get fun u v huv => ?_
    rw [huv.alike.runCache]
    cases v.runCache.get? c.toplevel c.revision with
    | some result => exact .pure result
    | none =>
      refine Action.coupled_remember (coupled_hashStored h _ _ _ _) fun result u v huv => ?_
      refine huv.trans ⟨.refl _, rfl, rfl, rfl⟩ ⟨.refl _, rfl, rfl, rfl⟩ ?_
      exact { huv.alike with runCache := congrArg (·.insert c.toplevel result) huv.alike.runCache }

end

namespace Job

variable {job : Job σ} (h : job.runner.Steady)

include h

/-- Two runs that remember the same and read the same manifest prepare the same package. -/
theorem coupled_prepare {path : Path} (hread : u₀.files.readText path = v₀.files.readText path) :
    Coupled (World.Abreast u₀ v₀) (job.prepare path) (job.prepare path) := by
  have hagrees : job.Agrees path (World.Abreast u₀ v₀) := by
    refine ⟨coupled_of_settled, fun u v huv => huv.alike.home, fun u v huv => ?_, ?_, fun c => coupled_hash h c _⟩
    · rw [huv.left.files.readText, hread, ← huv.right.files.readText]
    · exact fun name => coupled_lookup h job.database name
  exact hagrees.coupled_prepare h

/-- Nothing is emitted while a package is prepared. -/
theorem beside_prepare (path : Path) (w : World σ) : ((job.prepare path).perform w).2.Beside w :=
  (coupled_prepare h rfl w w ⟨.refl w, .refl w, .refl w⟩).2.left

end Job

end RosRecipes
