import RosRecipes.Proofs.Generation.Comparison
import RosRecipes.Proofs.Generation.Outcomes
import RosRecipes.Proofs.Provenance.Caches

/-!
# Manifests of a batch are independent

From one manifest to the next a run remembers answers of the dependency tool, hashes of fetches and claimed patches, and
files are written.  What is remembered of names and sources is what would be found out again (`World.Truthful`), so a
package is prepared as in a run of its own (`agrees_of_learnt`).  That more is claimed and more files are there can only
hinder what is emitted (`emitDraft_behind`).

* `outcome_of_behind` is about one manifest: unless something is refused, it has the outcome that it has at the start.
* `manifests_independent` is about whole runs: what they fail with, what they report, and that each manifest has the
  outcome of a run of its own.
-/

namespace RosRecipes

open Action (Gives Coupled)
open FileTree (Same)

variable {σ : Type} {runner : Runner σ} {job : Job σ} {H : String → Option String → String}
  {u v w w' w₀ u₀ v₀ : World σ} {location : Path} {revision : String} {directory : Option String} {path : Path}

/-- Why a file cannot be read, if it cannot. -/
def FileTree.fault? (t : FileTree) (p : Path) : Option FileFault :=
  match t.read p with
  | .ok _ => none
  | .error fault => some fault

theorem FileTree.fault?_eq_some_iff {t : FileTree} {p : Path} {fault : FileFault} :
    t.fault? p = some fault ↔ t.read p = .error fault := by
  unfold fault?
  cases t.read p with
  | ok content => exact ⟨nofun, nofun⟩
  | error e => exact ⟨fun h => congrArg Except.error (Option.some.inj h), fun h => congrArg some (Except.error.inj h)⟩

/-! ### Fetches -/

/-- A fetch reports a hash, whatever has happened before. -/
def Runner.Reports (runner : Runner σ) (location : Path) (revision : String) (directory : Option String) : Prop :=
  ∀ s t, ∃ output p, (runner.run (prefetchCommand location revision directory) s t).1 = .ok output ∧
    Prefetched.parse? output.stdout = some p

/-- Fetches that report a hash report that of the revision and the directory that were asked for, and it makes no
difference how the way to the repository is written. -/
structure Runner.FetchesBy (H : String → Option String → String) (runner : Runner σ) : Prop where
  result : runner.PrefetchesBy H
  location : ∀ l l' revision directory, l.components = l'.components → runner.Reports l revision directory →
    runner.Reports l' revision directory

theorem prefetch_of_reports (hp : runner.PrefetchesBy H) (h : runner.Reports location revision directory)
    (w : World σ) :
    ((prefetch runner location revision directory).perform w).1 = .ok ⟨revision, H revision directory⟩ := by
  obtain ⟨output, p, hok, hparse⟩ := h w.tools w.files
  obtain rfl := hp _ _ _ _ _ _ _ hok hparse
  unfold prefetch
  rw [Action.perform_bind_ok (x := ⟨⟩) rfl, Action.perform_bind_ok (by rw [Action.perform_call]; exact hok), hparse]
  dsimp only
  rw [if_neg (not_not_intro rfl)]
  rfl

theorem reports_of_prefetch (h : runner.Steady) {p : Prefetched}
    (hok : ((prefetch runner location revision directory).perform w).1 = .ok p) :
    runner.Reports location revision directory := by
  intro s t
  unfold prefetch at hok
  rw [Action.perform_bind_ok (x := ⟨⟩) rfl] at hok
  cases hanswer : (runner.run (prefetchCommand location revision directory) w.tools w.files).1 with
  | error e =>
    rw [Action.perform_bind_error (by rw [Action.perform_call]; exact hanswer)] at hok
    cases hok
  | ok output =>
    have hplain : ¬ (prefetchCommand location revision directory).WritesPatch :=
      fun hpatch => absurd hpatch.1 (by simp [prefetchCommand])
    rw [Action.perform_bind_ok (by rw [Action.perform_call]; exact hanswer)] at hok
    cases hparse : Prefetched.parse? output.stdout with
    | none =>
      rw [hparse] at hok
      cases hok
    | some q => exact ⟨output, q, (h.answer _ _ _ _ _ hplain).trans hanswer, hparse⟩

theorem Runner.fetchesBy_empty : (Runner.empty : Runner σ).FetchesBy H where
  result _ _ _ _ _ _ _ hok := by cases hok
  location l l' revision directory _ h s t := by
    obtain ⟨output, p, hok, -⟩ := h s t
    cases hok

/-! ### What is remembered -/

/-- What is remembered of names and sources would be found out again, in whatever world. -/
structure World.Truthful (job : Job σ) (H : String → Option String → String) (w : World σ) : Prop where
  answers : ∀ distribution, job.database = .tool distribution → ∀ name lookup, w.answers.get? name = some lookup →
    ∀ v, ((Rosdep.Database.ask job.runner distribution name Rosdep.targetSystem).perform v).1 = .ok lookup
  runCache : ∀ toplevel revision p, w.runCache.get? toplevel revision = some p →
    p = ⟨revision, H revision none⟩ ∧ job.runner.Reports toplevel revision none
  storedCache : w.storedCache = none

theorem World.Truthful.sameMemory (h : w.Truthful job H) (hsame : w'.SameMemory w) : w'.Truthful job H where
  answers := hsame.answers ▸ h.answers
  runCache := hsame.runCache ▸ h.runCache
  storedCache := hsame.storedCache.trans h.storedCache

/-- The world has learnt something truthful since the other one, and nothing else has happened. -/
structure World.Learnt (job : Job σ) (H : String → Option String → String) (w₀ w : World σ) : Prop where
  beside : w.Beside w₀
  patches : w.patches = w₀.patches
  truthful : w.Truthful job H

theorem World.Truthful.learnt (h : w.Truthful job H) : World.Learnt job H w w := ⟨.refl w, rfl, h⟩

theorem World.Learnt.trans (h : World.Learnt job H w₀ w) (hbeside : w'.Beside w) (hpatches : w'.patches = w.patches)
    (htruthful : w'.Truthful job H) : World.Learnt job H w₀ w' :=
  ⟨hbeside.trans h.beside, hpatches.trans h.patches, htruthful⟩

theorem World.Learnt.near (h : World.Learnt job H w₀ w) (hnear : w'.Near Same w) : World.Learnt job H w₀ w' :=
  h.trans hnear.beside hnear.patches
    (h.truthful.sameMemory ⟨hnear.answers, hnear.runCache, hnear.storedCache, hnear.mode⟩)

namespace Job

section

variable (h : job.runner.Steady)

include h

/-- What is looked up is what the tool would say, whether it is remembered or not. -/
private theorem gives_lookup (u : World σ) (name : String) : ∃ r, ∀ w₀, Gives (World.Learnt job H w₀)
    (job.database.lookup job.runner name Rosdep.targetSystem) r := by
  rcases job.database.knows_or_tool with ⟨f, hknown⟩ | ⟨distribution, htool⟩
  · refine ⟨.ok (f name), fun w₀ => ?_⟩
    rw [Rosdep.Database.lookup_of_knows hknown]
    exact .pure _
  · let ask := Rosdep.Database.ask job.runner distribution name Rosdep.targetSystem
    refine ⟨(ask.perform u).1, fun w₀ => ?_⟩
    have hsettled : Action.Settled Same ask := settled_askTool h distribution name _
    have hask : Gives (World.Learnt job H w₀) ask (ask.perform u).1 :=
      hsettled.gives (fun _ _ hw hnear => hw.near hnear) u
    rw [htool]
    refine .get fun w hw => ?_
    cases hget : w.answers.get? name with
    | some lookup =>
      have hremembered : (ask.perform u).1 = .ok lookup := hw.truthful.answers distribution htool name lookup hget u
      rw [hremembered]
      exact .pure lookup
    | none =>
      refine Action.gives_remember hask fun lookup hlookup w hw => hw.trans ⟨.refl _, rfl, rfl, rfl⟩ rfl ?_
      refine { hw.truthful with answers := fun distribution' htool' other found hfound v => ?_ }
      rw [Table.get?_insert] at hfound
      split at hfound
      · next heq =>
        cases hfound
        cases heq
        obtain rfl : distribution = distribution' := Rosdep.Database.tool.inj (htool.symm.trans htool')
        exact ((hsettled v u).1).trans hlookup
      · exact hw.truthful.answers distribution' htool' other found hfound v

/-- Without a stored cache, a hash is what a fetch reports. -/
private theorem gives_hashStored (u : World σ) (key : String) (toplevel : Path) (revision : String)
    (directory : Option String) : Gives (World.Learnt job H w₀)
      (Provenance.hashStored job.runner key toplevel revision directory)
      ((prefetch job.runner toplevel revision directory).perform u).1 := by
  have hprefetch : Gives (World.Learnt job H w₀) (prefetch job.runner toplevel revision directory)
      ((prefetch job.runner toplevel revision directory).perform u).1 :=
    (settled_prefetch h toplevel revision directory).gives (fun _ _ hw hnear => hw.near hnear) u
  refine .get fun w hw => ?_
  rw [hw.truthful.storedCache]
  refine Action.gives_remember hprefetch fun result _ w hw => hw.trans ⟨.refl _, rfl, rfl, rfl⟩ rfl ?_
  refine { hw.truthful with storedCache := ?_ }
  rw [hw.truthful.storedCache]
  rfl

variable (hfetch : job.runner.FetchesBy H)

include hfetch

/-- The hash of a package is what a fetch reports, whether it is remembered or not. -/
private theorem gives_hash (u : World σ) (c : Checkout) (perPackage : Bool) : Gives (World.Learnt job H w₀)
    (Provenance.hash job.runner c perPackage)
    ((prefetch job.runner c.toplevel c.revision (c.sparseCheckout perPackage)).perform u).1 := by
  cases perPackage with
  | true => exact gives_hashStored h u _ _ _ _
  | false =>
    have hstored : Gives (World.Learnt job H w₀)
        (Provenance.hashStored job.runner (StoredCache.key c.url none) c.toplevel c.revision none)
        ((prefetch job.runner c.toplevel c.revision none).perform u).1 := gives_hashStored h u _ _ _ _
    show Gives _ (Provenance.hashRepository _ _ _ _) ((prefetch job.runner c.toplevel c.revision none).perform u).1
    refine .get fun w hw => ?_
    cases hget : w.runCache.get? c.toplevel c.revision with
    | some result =>
      obtain ⟨rfl, hreports⟩ := hw.truthful.runCache _ _ _ hget
      rw [prefetch_of_reports hfetch.result hreports]
      exact .pure _
    | none =>
      refine Action.gives_remember hstored fun result hresult w hw => hw.trans ⟨.refl _, rfl, rfl, rfl⟩ rfl ?_
      have hreports := reports_of_prefetch h hresult
      obtain rfl : result = ⟨c.revision, H c.revision none⟩ :=
        Except.ok.inj (hresult.symm.trans (prefetch_of_reports hfetch.result hreports u))
      refine { hw.truthful with runCache := fun toplevel revision p hp => ?_ }
      obtain ⟨hentry, hrevision⟩ := Option.filter_eq_some_iff.1 hp
      dsimp only [RunCache.insert] at hentry
      rw [Table.get?_insert] at hentry
      split at hentry
      · next heq =>
        -- The entry was found for another way to write the same path.
        cases hentry
        obtain rfl : c.revision = revision := of_decide_eq_true hrevision
        exact ⟨rfl, hfetch.location _ _ _ _ heq.symm hreports⟩
      · exact hw.truthful.runCache toplevel revision p (Option.filter_eq_some_iff.2 ⟨hentry, hrevision⟩)

/-! ### One package -/

/-- Worlds that have learnt, each for itself, agree on a manifest that reads the same in both. -/
private theorem agrees_of_learnt (hhome : u₀.files.home = v₀.files.home)
    (hread : u₀.files.readText path = v₀.files.readText path) :
    job.Agrees path fun u v => World.Learnt job H u₀ u ∧ World.Learnt job H v₀ v where
  settled ha := ha.coupled fun _ _ _ _ huv hu hv => ⟨huv.1.near hu, huv.2.near hv⟩
  home u v huv := by rw [huv.1.beside.files.home, hhome, huv.2.beside.files.home]
  manifest u v huv := by rw [huv.1.beside.files.readText, hread, huv.2.beside.files.readText]
  lookup name := by
    obtain ⟨r, hr⟩ := gives_lookup h u₀ name
    exact (hr u₀).coupled (hr v₀)
  hash c := (gives_hash h hfetch u₀ c _).coupled (gives_hash h hfetch u₀ c _)

/-- What is remembered stays truthful. -/
theorem truthful_package (hu : u.Truthful job H) (path : Path) :
    ((job.package path).perform u).2.Truthful job H ∧ ((job.package path).perform u).2.mode = u.mode := by
  have hagrees : job.Agrees path fun u' v' => World.Learnt job H u u' ∧ World.Learnt job H u v' :=
    agrees_of_learnt h hfetch rfl rfl
  obtain ⟨-, hlearnt, -⟩ := hagrees.coupled_prepare h u u ⟨hu.learnt, hu.learnt⟩
  unfold package
  cases hprepare : ((job.prepare path).perform u).1 with
  | error e =>
    rw [Action.perform_bind_error hprepare]
    exact ⟨hlearnt.truthful, hlearnt.beside.mode⟩
  | ok d =>
    rw [Action.perform_bind_ok hprepare]
    have hsame := sameMemory_emitDraft d ((job.prepare path).perform u).2
    exact ⟨hlearnt.truthful.sameMemory hsame, hsame.mode.trans hlearnt.beside.mode⟩

/-- A manifest has the outcome that it has where less is there, unless it collides with patches or a file is refused. -/
theorem outcome_of_behind (hu : u.Truthful job H) (hv : v.Truthful job H) (hbehind : v.Behind u)
    (hread : u.files.readText path = v.files.readText path)
    (hminor : ∀ e, ((job.package path).perform u).1 = .error e → e.isFatal = false)
    (haccepted : ¬ Refused ((job.package path).perform u).2) : job.outcome path u = job.outcome path v := by
  have hagrees := agrees_of_learnt h hfetch hbehind.files.home.symm hread
  obtain ⟨hsame, hlearnt, hlearnt'⟩ := hagrees.coupled_prepare h u v ⟨hu.learnt, hv.learnt⟩
  unfold outcome
  unfold package at hminor haccepted ⊢
  rcases hprepare : (job.prepare path).perform u with ⟨e | d, u'⟩
  · -- Nothing is emitted by either.
    rw [hprepare] at hsame hlearnt
    rw [Action.perform_bind_error hsame.symm, Action.perform_bind_error (congrArg Prod.fst hprepare), hprepare,
      hlearnt.beside.emitted, hlearnt'.beside.emitted, List.drop_length, List.drop_length]
  rcases hprepare' : (job.prepare path).perform v with ⟨e | d', v'⟩
  · rw [hprepare, hprepare'] at hsame
    cases hsame
  rw [hprepare, hprepare'] at hsame
  cases hsame
  rw [hprepare] at hlearnt
  rw [hprepare'] at hlearnt'
  rw [Action.perform_bind_ok (congrArg Prod.fst hprepare), hprepare] at hminor haccepted ⊢
  rw [Action.perform_bind_ok (congrArg Prod.fst hprepare'), hprepare']
  dsimp only at hminor haccepted hlearnt hlearnt' ⊢
  rcases hdraft : (emitDraft d).perform u' with ⟨e | g, u''⟩
  · rw [hdraft] at hminor haccepted
    obtain ⟨added, hadded, e', he', hrefused⟩ := refused_of_emitDraft hdraft (hminor e rfl)
    exact absurd ⟨e', hadded ▸ List.mem_append_right _ he', hrefused⟩ haccepted
  have hbehind' : v'.Behind u' := by
    refine ⟨?_, ?_, hlearnt'.beside.files.symm.grows.homeStands hbehind.home, ?_⟩
    · rw [hlearnt'.beside.mode, hbehind.mode, hlearnt.beside.mode]
    · exact hlearnt'.beside.files.grows.trans (hbehind.files.trans hlearnt.beside.files.symm.grows)
    · rw [hlearnt'.patches, hlearnt.patches]
      exact hbehind.claimed
  obtain ⟨v'', hdraft'⟩ := emitDraft_behind hbehind' hdraft
  rw [hdraft', emitted_emitDraft hdraft, emitted_emitDraft hdraft', hlearnt.beside.emitted, hlearnt'.beside.emitted,
    List.drop_left, List.drop_left]

end

/-! ### Runs -/

/-- The job with a single manifest. -/
def only (job : Job σ) (path : Path) : Job σ :=
  { job with configuration := { job.configuration with sources := [path] } }

/-- A run with a single manifest has the outcome of that manifest. -/
theorem outcomes_only (job : Job σ) (path : Path) (start : World σ) :
    (job.only path).outcomes start = [job.outcome path { start with answers := ∅ }] := by
  show (job.only path).outcomesFrom [path] {} { start with answers := ∅ } = _
  rw [outcomesFrom]
  refine congrArg (job.outcome path { start with answers := ∅ } :: ·) ?_
  split
  · rfl
  · rfl

/-- A manifest that cannot be read at the start cannot be read, for the same reason, when its turn has come. -/
def StaysUnread (job : Job σ) (start : World σ) : Prop :=
  ∀ before path after, job.configuration.sources = before ++ path :: after →
    ∀ fault, start.files.fault? path = some fault →
      ((before.foldlM job.addPackage {}).perform start).2.files.fault? path = some fault

section

variable (h : job.runner.Steady)

include h

/-- A manifest that nothing is emitted to reads at its turn as it does at the start. -/
private theorem readText_turn {tools : σ} {files : FileTree} {mode : OutputMode}
    (hfree : ∀ e ∈ (job.run.perform (World.fresh tools files mode none)).2.emitted,
      (job.run.perform (World.fresh tools files mode none)).2.files.sameFile e.path path = false)
    (hunread : job.StaysUnread (World.fresh tools files mode none)) {before after : List Path}
    (hsources : job.configuration.sources = before ++ path :: after) :
    ((before.foldlM job.addPackage {}).perform (World.fresh tools files mode none)).2.files.readText path =
      files.readText path := by
  have hL := lockstep_compare (σ := σ) files
  obtain ⟨log, hrun⟩ := perform_run job tools files mode none
  rw [hrun] at hfree
  have hread : ((before.foldlM job.addPackage {}).perform (World.fresh tools files mode none)).2.files.read path =
      files.read path := by
    cases hstart : files.read path with
    | error fault =>
      have hfault : files.fault? path = some fault := FileTree.fault?_eq_some_iff.2 hstart
      exact FileTree.fault?_eq_some_iff.1 (hunread before path after hsources fault hfault)
    | ok content =>
      have hfile : files.isFile path = true := FileTree.isFile_iff.2 ⟨content, hstart⟩
      have hturn := (adds_sources hL h before {} (World.fresh tools files mode none)).files.isFile hfile
      have hwhole : (World.fresh tools files mode none).Later _ :=
        later_turn hL h (List.nil_append job.configuration.sources).symm
      rw [← hstart, (later_turn hL h hsources).read hturn hfree]
      exact (hwhole.read hfile hfree).symm
  unfold FileTree.readText
  rw [hread]

variable (hfetch : job.runner.FetchesBy H)

include hfetch

/-- A manifest whose turn comes has the outcome that it has where nothing has happened yet, and leaves the world ready
for the next one. -/
private theorem outcome_of_turn {alone : World σ} (halone : alone.Truthful job H)
    (hclaimed : alone.patches.claimed = []) (hu : u.Truthful job H) (hbehind : alone.Behind u) {r r' : Report}
    (hok : (job.addPackage r path).perform u = (.ok r', u')) (haccepted : ¬ Refused u')
    (hread : u.files.readText path = alone.files.readText path) :
    job.outcome path u = job.outcome path alone ∧ u'.Truthful job H ∧ alone.Behind u' := by
  obtain ⟨log, hu'⟩ := world_of_addPackage hok
  obtain ⟨htruthful, hmode⟩ := truthful_package h hfetch hu path
  have hlater := adds_addPackage (lockstep_compare u.files) h r path u
  rw [hok] at hlater
  refine ⟨outcome_of_behind h hfetch hu halone hbehind hread (fun e he => ?_) ?_, ?_, ?_, ?_, hbehind.home, ?_⟩
  · rcases ok_of_addPackage hok with ⟨p, hp, -⟩ | ⟨e', he', hminor, -⟩
    · rw [he] at hp
      cases hp
    · rw [he] at he'
      cases he'
      exact hminor
  · rw [hu'] at haccepted
    exact haccepted
  · rw [hu']
    exact { htruthful with }
  · rw [hu', hbehind.mode]
    exact hmode.symm
  · exact hbehind.files.trans hlater.files
  · intro c hc
    rw [hclaimed] at hc
    cases hc

/-- The outcomes of manifests that follow one another are those that they have where nothing has happened yet. -/
private theorem outcomes_of_behind {alone : World σ} (halone : alone.Truthful job H)
    (hclaimed : alone.patches.claimed = []) {sources : List Path} {r r' : Report} (hu : u.Truthful job H)
    (hbehind : alone.Behind u) (hok : (sources.foldlM job.addPackage r).perform u = (.ok r', u'))
    (haccepted : ¬ Refused u')
    (hread : ∀ before path after, sources = before ++ path :: after →
      ((before.foldlM job.addPackage r).perform u).2.files.readText path = alone.files.readText path) :
    job.outcomesFrom sources r u = sources.map (job.outcome · alone) := by
  induction sources generalizing r u with
  | nil => rfl
  | cons path sources ih =>
    rw [List.foldlM_cons] at hok
    obtain ⟨r₁, w, hpath, hrest⟩ := Action.bind_ok_cases hok
    have hlater := adds_sources (lockstep_compare u.files) h sources r₁ w
    rw [hrest] at hlater
    have haccepted' : ¬ Refused w := fun hrefused => haccepted (hrefused.later hlater)
    obtain ⟨hfirst, hw, hbehind'⟩ :=
      outcome_of_turn h hfetch halone hclaimed hu hbehind hpath haccepted' (hread [] path sources rfl)
    have hnext := ih hw hbehind' hrest fun before path' after hsources => by
      have hturn := hread (path :: before) path' after (by rw [hsources]; rfl)
      rw [List.foldlM_cons, Action.perform_bind_ok (congrArg Prod.fst hpath), hpath] at hturn
      exact hturn
    unfold outcomesFrom
    rw [hpath, List.map_cons, hfirst]
    exact congrArg _ hnext

omit h hfetch in
private theorem truthful_fresh (tools : σ) (files : FileTree) (mode : OutputMode) :
    (World.fresh tools files mode none).Truthful job H where
  answers _ _ _ _ hget := by cases hget
  runCache _ _ _ hget := by cases hget
  storedCache := rfl

/-- The outcomes of a run are those that the manifests have at the start. -/
private theorem outcomes_of_start {tools : σ} (tools' : σ) {files : FileTree} {mode : OutputMode} {r : Report}
    (hhome : files.HomeStands) (hok : (job.run.perform (World.fresh tools files mode none)).1 = .ok r)
    (haccepted : ¬ Refused (job.run.perform (World.fresh tools files mode none)).2)
    (hfree : ∀ path ∈ job.configuration.sources,
      ∀ e ∈ (job.run.perform (World.fresh tools files mode none)).2.emitted,
        (job.run.perform (World.fresh tools files mode none)).2.files.sameFile e.path path = false)
    (hunread : job.StaysUnread (World.fresh tools files mode none)) :
    job.outcomes (World.fresh tools files mode none) =
      job.configuration.sources.map (job.outcome · (World.fresh tools' files mode none)) := by
  obtain ⟨r', v, hsources, -, -⟩ := sources_of_run hok
  change (job.configuration.sources.foldlM job.addPackage {}).perform (World.fresh tools files mode none) = (.ok r', v)
    at hsources
  have hlater := later_turn (lockstep_compare (σ := σ) files) h (w := World.fresh tools files mode none)
    (List.append_nil job.configuration.sources).symm
  obtain ⟨log, hrun⟩ := perform_run job tools files mode none
  have hbehind : (World.fresh tools' files mode none).Behind (World.fresh tools files mode none) :=
    ⟨rfl, (Same.refl files).grows, hhome, fun c hc => hc⟩
  refine outcomes_of_behind h hfetch (truthful_fresh tools' files mode) rfl (truthful_fresh tools files mode) hbehind
    hsources ?_ fun before path after hsplit => ?_
  · intro hrefused
    rw [hsources] at hlater
    have hend := hrefused.later hlater
    rw [hrun] at haccepted
    exact haccepted hend
  · have hpath : path ∈ job.configuration.sources := by
      rw [hsplit]
      exact List.mem_append_right _ List.mem_cons_self
    exact readText_turn h (hfree path hpath) hunread hsplit

end

/-- Manifests of a batch are independent.  The tree holds ordinary files that can be read and written, and directories;
there are no links, devices or permissions in it.  If the reference of the package set is accepted, where one is needed:

* A run fails only with a collision of patches, or because a file beside the recipes cannot be written.
* What a run reports are the packages of the manifests, in order, and the manifests whose packages failed, in order.
* Suppose that the answers of outside programs depend on the command only, that these leave the files alone, except for
  patches in the directory that they are to be written to, and that fetches give the revision that is asked for with a
  hash that depends on it and on the directory only.  Then, after a run that starts in a working directory that exists,
  with nothing remembered, and that returns a report: if nothing was refused, no manifest was written to, and those that
  could not be read at the start could not be read at their turn either, for the same reason, each manifest has the
  outcome that it has in a run of its own. -/
theorem manifests_independent (hreference : job.configuration.checkReference = .ok ()) :
    (∀ start e, (job.run.perform start).1 = .error e →
      (∃ p, e = .patchCollision p) ∨ ∃ p ∈ job.configuration.topFiles, e.IsWriteOf p) ∧
    (∀ start r, (job.run.perform start).1 = .ok r →
      (job.outcomes start).map (·.path) = job.configuration.sources ∧ r.Accounts (job.outcomes start)) ∧
    ∀ H, job.runner.Steady → job.runner.FetchesBy H → ∀ tools tools' files mode r,
      let start := World.fresh tools files mode none
      let w := (job.run.perform start).2
      files.HomeStands → (job.run.perform start).1 = .ok r → ¬ Refused w →
      (∀ path ∈ job.configuration.sources, ∀ e ∈ w.emitted, w.files.sameFile e.path path = false) →
      job.StaysUnread start →
      job.outcomes start = job.configuration.sources.flatMap fun path =>
        (job.only path).outcomes (World.fresh tools' files mode none) := by
  refine ⟨fun start e he => ?_, fun start r hr => accounts_of_run hr, ?_⟩
  · rcases collision_or_beside he with hcollision | hwrite | hrefuses
    · exact .inl hcollision
    · exact .inr hwrite
    · rw [hreference] at hrefuses
      cases hrefuses
  · intro H h hfetch tools tools' files mode r start w hhome hok haccepted hfree hunread
    rw [outcomes_of_start h hfetch tools' hhome hok haccepted hfree hunread, List.map_eq_flatMap]
    simp only [outcomes_only]
    rfl

/-! ### Two packages of one repository -/

private theorem homeStands_twoManifests : twoManifests.HomeStands := by
  intro n
  show twoManifests.find? (List.take n []) = _
  rw [List.take_nil]
  rfl

/-- The answers of git and of a fetch about a repository with a single commit. -/
def oneCommit (c : Command) : Except Error Output :=
  match c.arguments with
  | ["config", "remote.origin.url"] => .ok { stdout := "https://example.org/ws.git" }
  | ["rev-parse", "--show-prefix"] => .ok { stdout := "pkg/" }
  | ["rev-parse", "--show-toplevel"] => .ok { stdout := "/ws" }
  | ["rev-parse", "HEAD"] => .ok { stdout := "base" }
  | ["for-each-ref", _, _] => .ok { stdout := "base" }
  | ["merge-base", _, _] => .ok { stdout := "base" }
  | ["--quiet", _, revision] =>
    if revision = "base" then .ok { stdout := "[\"base\", \"whole\"]" }
    else .error (.commandFailed c.line ⟨"."⟩ "exited with status 1" "")
  | _ => .error (.commandFailed c.line ⟨"."⟩ "exited with status 1" "")

theorem steady_oneCommit : (Runner.ofAnswer oneCommit : Runner σ).Steady :=
  Runner.steady_ofAnswer fun _ _ => ⟨_, rfl⟩

private theorem oneCommit_prefetch {output : Output}
    (h : oneCommit (prefetchCommand location revision directory) = .ok output) :
    directory = none ∧ revision = "base" ∧ output = { stdout := "[\"base\", \"whole\"]" } := by
  cases directory with
  | some directory => cases h
  | none =>
    by_cases hrevision : revision = "base"
    · subst hrevision
      cases h
      exact ⟨rfl, rfl, rfl⟩
    · cases (if_neg hrevision).symm.trans h

theorem fetchesBy_oneCommit : (Runner.ofAnswer oneCommit : Runner σ).FetchesBy fun _ _ => "whole" where
  result location revision directory s t output p hok hparse := by
    obtain ⟨rfl, rfl, rfl⟩ := oneCommit_prefetch hok
    have hwhole : Prefetched.parse? "[\"base\", \"whole\"]" = some ⟨"base", "whole"⟩ := by decide +kernel
    exact Option.some.inj (hparse.symm.trans hwhole)
  location l l' revision directory _ h s t := by
    obtain ⟨output, p, hok, hparse⟩ := h s t
    obtain ⟨rfl, rfl, rfl⟩ := oneCommit_prefetch hok
    exact ⟨_, p, rfl, hparse⟩

/-- Two packages of one repository, and a manifest that is missing. -/
def oneRepository : Job Unit where
  configuration := {
    sources := [⟨"a/package.xml"⟩, ⟨"missing/package.xml"⟩, ⟨"b/package.xml"⟩]
    fetch := true, naming := .package, directory := some ⟨"out"⟩ }
  database := .nothing
  runner := .ofAnswer oneCommit
  year := "2024"

/-- The hash that the first package has found serves the second one as well, and the missing manifest serves neither. -/
theorem outcomes_of_one_repository :
    (∃ r, (oneRepository.run.perform (World.fresh () twoManifests .write none)).1 = .ok r ∧
      r.packages.map (·.name) = ["a", "b"] ∧ r.failed = [⟨"missing/package.xml"⟩]) ∧
    oneRepository.outcomes (World.fresh () twoManifests .write none) = oneRepository.configuration.sources.flatMap
      fun path => (oneRepository.only path).outcomes (World.fresh () twoManifests .write none) := by
  have hrun :
      (oneRepository.run.perform (World.fresh () twoManifests .write none)).1.toOption.map (fun r =>
        (r.packages.map (·.name), r.failed)) = some (["a", "b"], [⟨"missing/package.xml"⟩]) ∧
      ¬ Refused (oneRepository.run.perform (World.fresh () twoManifests .write none)).2 ∧
      ∀ path ∈ oneRepository.configuration.sources,
        ∀ e ∈ (oneRepository.run.perform (World.fresh () twoManifests .write none)).2.emitted,
          (oneRepository.run.perform (World.fresh () twoManifests .write none)).2.files.sameFile e.path path =
            false := by
    decide +kernel
  obtain ⟨hreport, haccepted, hfree⟩ := hrun
  obtain ⟨r, hr, heq⟩ := exists_of_toOption hreport
  have hunread : oneRepository.StaysUnread (World.fresh () twoManifests .write none) := by
    have hturns : ∀ turn ∈ [([], ⟨"a/package.xml"⟩), ([⟨"a/package.xml"⟩], ⟨"missing/package.xml"⟩),
        ([⟨"a/package.xml"⟩, ⟨"missing/package.xml"⟩], (⟨"b/package.xml"⟩ : Path))],
        ((turn.1.foldlM oneRepository.addPackage {}).perform (World.fresh () twoManifests .write none)).2.files.fault?
          turn.2 = twoManifests.fault? turn.2 := by
      decide +kernel
    intro before path after hsources fault hfault
    have hall : [⟨"a/package.xml"⟩, ⟨"missing/package.xml"⟩, ⟨"b/package.xml"⟩] = before ++ path :: after := hsources
    refine (hturns (before, path) ?_).trans hfault
    rcases before with _ | ⟨_, _ | ⟨_, _ | ⟨_, before⟩⟩⟩ <;> simp_all
  have hreference : oneRepository.configuration.checkReference = .ok () := rfl
  have hindependent := (manifests_independent hreference).2.2 _ steady_oneCommit fetchesBy_oneCommit () () twoManifests
    .write r homeStands_twoManifests hr haccepted hfree hunread
  exact ⟨⟨r, hr, congrArg Prod.fst heq, congrArg Prod.snd heq⟩, hindependent⟩

/-! ### A detour -/

/-- Two packages, the second of which is found by way of the directory of the first recipe. -/
def secondDetour : Job Unit where
  configuration := {
    sources := [⟨"a/package.xml"⟩, ⟨"out/../b/package.xml"⟩]
    naming := .package, directory := some ⟨"out"⟩, shell := false, default := some false }
  database := .nothing
  runner := .empty
  year := "2024"

/-- A manifest may be found only because a package before it has created a directory on the way. -/
theorem batch_sees_new_directories :
    ¬ ∀ (job : Job Unit) (H : String → Option String → String) (files : FileTree) (r : Report),
      job.configuration.checkReference = .ok () → job.runner.Steady → job.runner.FetchesBy H → files.HomeStands →
      (job.run.perform (World.fresh () files .write none)).1 = .ok r →
      ¬ Refused (job.run.perform (World.fresh () files .write none)).2 →
      (∀ path ∈ job.configuration.sources, ∀ e ∈ (job.run.perform (World.fresh () files .write none)).2.emitted,
        (job.run.perform (World.fresh () files .write none)).2.files.sameFile e.path path = false) →
      job.outcomes (World.fresh () files .write none) =
        job.configuration.sources.flatMap fun path => (job.only path).outcomes (World.fresh () files .write none) := by
  intro hclaim
  have hrun :
      (secondDetour.run.perform (World.fresh () twoManifests .write none)).1.toOption.map (·.failed) = some [] ∧
      ¬ Refused (secondDetour.run.perform (World.fresh () twoManifests .write none)).2 ∧
      ∀ path ∈ secondDetour.configuration.sources,
        ∀ e ∈ (secondDetour.run.perform (World.fresh () twoManifests .write none)).2.emitted,
          (secondDetour.run.perform (World.fresh () twoManifests .write none)).2.files.sameFile e.path path =
            false := by
    decide +kernel
  obtain ⟨hreport, haccepted, hfree⟩ := hrun
  obtain ⟨r, hr, -⟩ := exists_of_toOption hreport
  have hequal := hclaim secondDetour (fun _ _ => "") twoManifests r rfl Runner.steady_empty Runner.fetchesBy_empty
    homeStands_twoManifests hr haccepted hfree
  have hbatch : (secondDetour.outcomes (World.fresh () twoManifests .write none)).map (·.result.isOk) =
      [true, true] := by
    decide +kernel
  have halone : (secondDetour.configuration.sources.flatMap fun path =>
      (secondDetour.only path).outcomes (World.fresh () twoManifests .write none)).map (·.result.isOk) =
        [true, false] := by
    decide +kernel
  rw [hequal, halone] at hbatch
  cases hbatch

end Job

end RosRecipes
