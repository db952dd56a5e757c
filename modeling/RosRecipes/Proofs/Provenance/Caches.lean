import RosRecipes.Proofs.Provenance.Keys
import RosRecipes.Proofs.Provenance.Patches

/-!
# Caches never change a source

A cache is sound if its entries are what a fetch would give: in the cache of the run the hash of a whole repository,
in the stored cache that of the repository or of the directory that the key names (`RunCache.Sound`,
`StoredCache.Sound`).  Each way to find a hash gives the one of a fetch, and keeps the caches sound:

* `yields_hashStored` and `yields_hashRepository` are about one cache each,
* `yields_resolve` is about one package,
* `sources_ignore_caches` about all packages of a run, whatever fails among them.
-/

namespace RosRecipes

open Action (Settled Yields)

variable {σ : Type} {runner : Runner σ} {H : String → Option String → String}

/-! ### Sound caches -/

/-- The directory that the fetch for a key is restricted to: the empty one does not restrict it. -/
def fetchedDirectory (directory : Option String) : Option String := directory.filter (· ≠ "")

/-- The cache of the run has hashes of whole repositories. -/
def RunCache.Sound (H : String → Option String → String) (c : RunCache) : Prop :=
  ∀ toplevel p, c.entries.get? toplevel = some p → p.sha256 = H p.revision none

/-- The stored cache has the hashes of what its keys name. -/
def StoredCache.Sound (H : String → Option String → String) (c : StoredCache) : Prop :=
  ∀ url directory p, Unmarked url → c.entries.get? (StoredCache.key url directory) = some p →
    p.sha256 = H p.revision (fetchedDirectory directory)

theorem RunCache.Sound.empty : RunCache.Sound H {} := fun _ _ h => by cases h

theorem RunCache.Sound.insert {c : RunCache} (h : c.Sound H) (toplevel : Path) (revision : String) :
    (c.insert toplevel ⟨revision, H revision none⟩).Sound H := by
  intro other p hp
  rw [RunCache.insert, Table.get?_insert] at hp
  split at hp
  · cases hp
    rfl
  · exact h other p hp

theorem RunCache.Sound.get? {c : RunCache} (h : c.Sound H) {toplevel : Path} {revision : String} {p : Prefetched}
    (hp : c.get? toplevel revision = some p) : p = ⟨revision, H revision none⟩ := by
  obtain ⟨hget, hrevision⟩ := Option.filter_eq_some_iff.1 hp
  obtain ⟨found, sha256⟩ := p
  have hsha := h _ _ hget
  have heq : found = revision := of_decide_eq_true hrevision
  subst heq
  exact congrArg _ hsha

theorem StoredCache.Sound.insert {c : StoredCache} (h : c.Sound H) {url : String} (hurl : Unmarked url)
    (directory : Option String) (revision : String) :
    (c.insert (StoredCache.key url directory) ⟨revision, H revision (fetchedDirectory directory)⟩).Sound H := by
  intro url' directory' p hurl' hp
  rw [StoredCache.insert, Table.get?_insert] at hp
  split at hp
  · next hkey =>
    cases hp
    obtain ⟨-, rfl⟩ := StoredCache.key_inj hurl' hurl hkey
    rfl
  · exact h url' directory' p hurl' hp

theorem StoredCache.Sound.get? {c : StoredCache} (h : c.Sound H) {url : String} (hurl : Unmarked url)
    {directory : Option String} {revision : String} {p : Prefetched}
    (hp : c.get? (StoredCache.key url directory) revision = some p) :
    p = ⟨revision, H revision (fetchedDirectory directory)⟩ := by
  obtain ⟨hget, hrevision⟩ := Option.filter_eq_some_iff.1 hp
  obtain ⟨found, sha256⟩ := p
  have hsha := h _ _ _ hurl hget
  have heq : found = revision := of_decide_eq_true hrevision
  subst heq
  exact congrArg _ hsha

/-- Both caches of a run are sound. -/
structure World.CachesSound (H : String → Option String → String) (w : World σ) : Prop where
  run : w.runCache.Sound H
  stored : ∀ c, w.storedCache = some c → c.Sound H

/-! ### Finding a hash -/

/-- A fetch that succeeds gives the revision that was asked for, with its hash. -/
def Runner.PrefetchesBy (H : String → Option String → String) (runner : Runner σ) : Prop :=
  ∀ location revision directory s t output p,
    (runner.run (prefetchCommand location revision directory) s t).1 = .ok output →
    Prefetched.parse? output.stdout = some p → p = ⟨revision, H revision directory⟩

namespace Provenance

private theorem yields_prefetch (hp : runner.PrefetchesBy H) (location : Path) (revision : String)
    (directory : Option String) :
    Yields (World.CachesSound H) (prefetch runner location revision directory)
      (· = ⟨revision, H revision directory⟩) := by
  refine .bind (Q := fun _ => True) (.modify fun w h => ⟨h.run, h.stored⟩) fun _ _ => ?_
  refine (Yields.call (fun w _ _ h => ⟨h.run, h.stored⟩) runner _).bind ?_
  rintro output ⟨s, t, houtput⟩
  cases hparse : Prefetched.parse? output.stdout with
  | none => exact .throw _
  | some p =>
    have hresult := hp _ _ _ _ _ _ _ houtput hparse
    dsimp only
    rw [if_neg (by rw [hresult]; exact not_not_intro rfl)]
    exact .pure hresult

/-- With a sound stored cache, a hash is that of a fetch. -/
theorem yields_hashStored (hp : runner.PrefetchesBy H) {url : String} (hurl : Unmarked url) (toplevel : Path)
    (revision : String) (directory : Option String) :
    Yields (World.CachesSound H)
      (hashStored runner (StoredCache.key url directory) toplevel revision (fetchedDirectory directory))
      (· = ⟨revision, H revision (fetchedDirectory directory)⟩) := by
  refine .get fun w hw => ?_
  cases hget : w.storedCache.bind (·.get? (StoredCache.key url directory) revision) with
  | some p =>
    obtain ⟨c, hc, hp⟩ := Option.bind_eq_some_iff.1 hget
    exact .pure ((hw.stored c hc).get? hurl hp)
  | none =>
    refine (yields_prefetch hp toplevel revision _).bind ?_
    rintro _ rfl
    refine .bind (Q := fun _ => True) (.modify fun w h => ⟨h.run, ?_⟩) fun _ _ => .pure rfl
    intro c hc
    obtain ⟨c', hc', rfl⟩ := Option.map_eq_some_iff.1 hc
    exact (h.stored c' hc').insert hurl directory revision

/-- With sound caches, the hash of a repository is that of a fetch. -/
theorem yields_hashRepository (hp : runner.PrefetchesBy H) {url : String} (hurl : Unmarked url) (toplevel : Path)
    (revision : String) :
    Yields (World.CachesSound H) (hashRepository runner url toplevel revision) (· = ⟨revision, H revision none⟩) := by
  refine .get fun w hw => ?_
  cases hget : w.runCache.get? toplevel revision with
  | some p => exact .pure (hw.run.get? hget)
  | none =>
    refine (yields_hashStored hp hurl toplevel revision none).bind ?_
    rintro _ rfl
    refine .bind (Q := fun _ => True) (.modify fun w h => ⟨h.run.insert toplevel revision, h.stored⟩) ?_
    exact fun _ _ => .pure rfl

/-- With sound caches, the hash of a package is that of a fetch. -/
theorem yields_hash (hp : runner.PrefetchesBy H) {c : Checkout} (hurl : Unmarked c.url) (perPackage : Bool) :
    Yields (World.CachesSound H) (hash runner c perPackage)
      (· = ⟨c.revision, H c.revision (c.sparseCheckout perPackage)⟩) := by
  cases perPackage with
  | true =>
    have hdirectory : c.sparseCheckout true = fetchedDirectory (some c.subdirectory) := by
      unfold Checkout.sparseCheckout Checkout.subdirectory? fetchedDirectory
      by_cases hempty : c.subdirectory = ""
      · simp [hempty, Option.filter]
      · simp [hempty, Option.filter]
    unfold hash
    rw [hdirectory]
    exact yields_hashStored hp hurl c.toplevel c.revision (some c.subdirectory)
  | false => exact yields_hashRepository hp hurl c.toplevel c.revision

/-! ### Packages -/

private theorem anyFiles_equivalence : Equivalence fun _ _ : FileTree => True :=
  ⟨fun _ => trivial, fun _ => trivial, fun _ _ => trivial⟩

private theorem cachesSound_near {T : FileTree → FileTree → Prop} {w w' : World σ} (h : w.CachesSound H)
    (hnear : w'.Near T w) : w'.CachesSound H := by
  refine ⟨?_, fun c hc => ?_⟩
  · rw [hnear.runCache]
    exact h.run
  · rw [hnear.storedCache] at hc
    exact h.stored c hc

section

variable {r : Repository} (hgit : r.AnswersSettled runner fun _ _ => True)

include hgit

/-- What is found out about a package holds in every world, and tells where its revision comes from. -/
theorem yields_inspect (hurl : ∀ w url, ((r.remoteUrl runner).perform w).1 = .ok url → Unmarked url)
    (perPackage : Bool) :
    Yields (World.CachesSound H) (inspect runner r perPackage) fun c =>
      (∀ w, ((inspect runner r perPackage).perform w).1 = .ok c) ∧ Unmarked c.url ∧
        (perPackage = false → c.revision = c.mergeBase) ∧
        (perPackage = true → ∀ w, ((r.lastCommit runner c.mergeBase).perform w).1 = .ok c.revision) := by
  have hT := anyFiles_equivalence
  have hsound : ∀ {α : Type} {a : Action σ α}, Settled (fun _ _ => True) a →
      Yields (World.CachesSound H) a fun x => ∀ w, (a.perform w).1 = .ok x :=
    fun h => h.yields fun _ _ hw hnear => cachesSound_near hw hnear
  refine (hsound (settled_inspect hT hgit perPackage)).and ?_
  refine (hsound (Repository.settled_remoteUrl hT hgit)).bind fun url hremote => ?_
  refine (hsound (Repository.settled_subdirectory hT hgit)).bind fun subdirectory _ => ?_
  refine (hsound (Repository.settled_toplevel hT hgit)).bind fun toplevel _ => ?_
  refine (hsound (Repository.settled_head hT hgit)).bind fun head _ => ?_
  refine (hsound (Repository.settled_mergeBase hT hgit head)).bind fun mergeBase _ => ?_
  have hunmarked : ∀ w : World σ, Unmarked url := fun w => hurl w url (hremote w)
  cases perPackage with
  | true =>
    refine (hsound (Repository.settled_lastCommit hT hgit mergeBase)).bind fun revision hlast => ?_
    exact fun w hw => ⟨hw, fun c hc => by cases hc; exact ⟨hunmarked w, nofun, fun _ => hlast⟩⟩
  | false =>
    refine .bind (Q := (· = mergeBase)) (.pure rfl) ?_
    rintro _ rfl
    exact fun w hw => ⟨hw, fun c hc => by cases hc; exact ⟨hunmarked w, fun _ => rfl, nofun⟩⟩

end

/-- Patches leave the caches alone, whatever git does. -/
private theorem yields_extractPatches (r : Repository) (revision : String) :
    Yields (World.CachesSound H) (extractPatches runner r revision) fun _ => True := by
  have hcall : ∀ c, Yields (World.CachesSound H) (Action.call runner c) fun _ => True :=
    fun c => (Yields.call (fun w _ _ h => ⟨h.run, h.stored⟩) runner c).mono fun _ _ => trivial
  have hask : ∀ arguments, Yields (World.CachesSound H) (r.ask runner arguments) fun _ => True :=
    fun arguments => (hcall _).bind fun _ _ => .pure trivial
  have hformat : ∀ commit target, Yields (World.CachesSound H) (r.formatPatch runner commit target) fun _ => True := by
    refine fun commit target => (hask _).bind fun answer _ => ?_
    cases r.reportedFile? answer with
    | none => exact .throw _
    | some file => exact .pure trivial
  have hextract : ∀ target commit,
      Yields (World.CachesSound H) (extractPatch runner r target commit) fun _ => True := by
    refine fun target commit => (hformat commit target).bind fun file _ => .get fun w _ => ?_
    refine (Yields.ofFile _ _).bind fun content _ => ?_
    cases file.fileName? with
    | none => exact .throw _
    | some fileName =>
      exact (Yields.changeFiles (fun w _ h => ⟨h.run, h.stored⟩) _ _).bind fun _ _ => .pure trivial
  refine .bind (Q := fun _ => True) ((hask _).bind fun _ _ => .pure trivial) fun commits _ => ?_
  by_cases hcommits : commits.isEmpty = true
  · simp only [hcommits, ↓reduceIte]
    exact .pure trivial
  · simp only [hcommits]
    refine .get fun w _ => .bind (.modify fun w h => ⟨h.run, h.stored⟩) fun _ _ => ?_
    refine (Yields.mapM (hextract temporaryPath) commits).attempt.bind fun outcome _ => ?_
    refine .bind (.modify fun w h => ⟨h.run, h.stored⟩) fun _ _ => ?_
    cases outcome with
    | error e => exact .throw e
    | ok patches => exact .pure trivial

/-- What a provenance is if nothing is ever remembered: what git says and the hash of a fetch, in every world. -/
structure Uncached (runner : Runner σ) (H : String → Option String → String) (directory : Path) (options : Options)
    (c : Checkout) (p : Provenance) : Prop where
  checkout : ∀ w, ((inspect runner ⟨directory⟩ options.perPackage).perform w).1 = .ok c
  ofRepository : options.perPackage = false → c.revision = c.mergeBase
  ofPackage : options.perPackage = true →
    ∀ w, ((Repository.lastCommit runner ⟨directory⟩ c.mergeBase).perform w).1 = .ok c.revision
  source : p.source = c.source ⟨c.revision, H c.revision (c.sparseCheckout options.perPackage)⟩ options.perPackage
  mergeBase : p.mergeBase = c.mergeBase
  dropsCommits : p.dropsCommits = (!options.patches && c.isAhead)
  withoutPatches : options.patches = false → p.patches = []
  withPatches : options.patches = true → runner.WritesInside →
    ∀ w, ((extractPatches runner ⟨directory⟩ c.revision).perform w).1 = .ok p.patches

/-- With sound caches, a provenance is what it would be without them. -/
theorem yields_resolve (hgit : ∀ r : Repository, r.AnswersSettled runner fun _ _ => True)
    (hurl : ∀ (r : Repository) w url, ((r.remoteUrl runner).perform w).1 = .ok url → Unmarked url)
    (hprefetch : runner.PrefetchesBy H) (directory : Path) (options : Options) :
    Yields (World.CachesSound H) (resolve runner directory options) fun p =>
      ∃ c, Uncached runner H directory options c p := by
  refine (yields_inspect (hgit ⟨directory⟩) (hurl ⟨directory⟩) options.perPackage).bind ?_
  rintro c ⟨hcheckout, hunmarked, hrepository, hpackage⟩
  refine (yields_hash hprefetch hunmarked options.perPackage).bind ?_
  rintro _ rfl
  have hpatches : Yields (World.CachesSound H) (localPatches runner ⟨directory⟩ c.revision options.patches)
      fun patches => (options.patches = false → patches = []) ∧ (options.patches = true → runner.WritesInside →
        ∀ w, ((extractPatches runner ⟨directory⟩ c.revision).perform w).1 = .ok patches) := by
    cases options.patches with
    | false => exact .pure ⟨fun _ => rfl, nofun⟩
    | true =>
      refine fun w hw => ⟨(yields_extractPatches ⟨directory⟩ c.revision w hw).1, fun patches hok => ⟨nofun, ?_⟩⟩
      intro _ hinside w'
      -- Extraction gives the same in every world, so what it gave here holds for all of them.
      have hsettled := settled_extractPatches anyFiles_equivalence (fun _ _ _ => trivial) (hgit ⟨directory⟩) hinside
        c.revision
      rw [(hsettled w' w).1]
      exact hok
  have hwarn : ∀ drops, Yields (World.CachesSound H) (warnOfDropped c drops : Action σ Unit) fun _ => True := by
    intro drops
    cases drops with
    | false => exact .pure trivial
    | true => exact .modify fun w h => ⟨h.run, h.stored⟩
  refine hpatches.bind fun patches hgiven => (hwarn _).bind fun _ _ => .pure ⟨c, ?_⟩
  exact ⟨hcheckout, hrepository, hpackage, rfl, rfl, rfl, hgiven.1, hgiven.2⟩

/-! ### Runs -/

/-- The provenances of several packages, one after the other; some may fail. -/
def resolveAll (runner : Runner σ) (calls : List (Path × Options)) : Action σ (List (Except Error Provenance)) :=
  calls.mapM fun call => (resolve runner call.1 call.2).attempt

/-- Packages that fail do not stop the others, and all find sound caches. -/
private theorem perform_resolveAll {Q : Path × Options → Provenance → Prop}
    (h : ∀ call : Path × Options, Yields (World.CachesSound H) (resolve runner call.1 call.2) (Q call))
    (calls : List (Path × Options)) {w : World σ} (hw : w.CachesSound H) :
    ∃ results, ((resolveAll runner calls).perform w).1 = .ok results ∧
      ((resolveAll runner calls).perform w).2.CachesSound H ∧ results.length = calls.length ∧
      ∀ call p, (call, .ok p) ∈ calls.zip results → Q call p := by
  induction calls generalizing w with
  | nil => exact ⟨[], rfl, hw, rfl, fun _ _ hmem => by cases hmem⟩
  | cons call calls ih =>
    have hfirst := h call w hw
    obtain ⟨results, hok, hsound, hlength, hall⟩ := ih hfirst.1
    have hperform : (resolveAll runner (call :: calls)).perform w =
        (.ok (((resolve runner call.1 call.2).perform w).1 :: results),
          ((resolveAll runner calls).perform ((resolve runner call.1 call.2).perform w).2).2) := by
      unfold resolveAll
      rw [List.mapM_cons, Action.perform_bind_ok rfl]
      exact Action.perform_bind_ok hok
    refine ⟨_, congrArg Prod.fst hperform, ?_, congrArg (· + 1) hlength, ?_⟩
    · rw [hperform]
      exact hsound
    · intro call' p hmem
      rcases List.mem_cons.1 hmem with heq | hmem
      · obtain ⟨rfl, hp⟩ := Prod.mk.inj heq
        exact hfirst.2 p hp.symm
      · exact hall call' p hmem

/-- Caches never change a source.  Suppose that git answers by the question alone and that a fetch gives the revision
that was asked for, with the hash of what is fetched.  Then in a run that starts with no results of its own and a
sound stored cache, if any, each source that is found is the one that would be found without caches; and the caches
stay sound. -/
theorem sources_ignore_caches
    (hgit : ∀ (r : Repository) arguments s t s' t', ¬ (r.question arguments).WritesPatch →
      (runner.run (r.question arguments) s t).1 = (runner.run (r.question arguments) s' t').1)
    (hprefetch : runner.PrefetchesBy H)
    (hurl : ∀ (r : Repository) w url, ((r.remoteUrl runner).perform w).1 = .ok url → Unmarked url)
    {w : World σ} (hrun : w.runCache = {}) (hstored : ∀ c, w.storedCache = some c → c.Sound H)
    (calls : List (Path × Options)) :
    ∃ results, ((resolveAll runner calls).perform w).1 = .ok results ∧ results.length = calls.length ∧
      ((resolveAll runner calls).perform w).2.CachesSound H ∧
      ∀ directory options p, ((directory, options), .ok p) ∈ calls.zip results →
        p.source.sha256 = H p.source.revision p.source.sparseCheckout ∧
        ∃ c, Uncached runner H directory options c p ∧ p.source.revision = c.revision := by
  have hsettled : ∀ r : Repository, r.AnswersSettled runner fun _ _ => True :=
    fun r arguments hplain => .call (fun s t s' t' => hgit r arguments s t s' t' hplain) fun _ _ => trivial
  have hsound : w.CachesSound H := by
    refine ⟨?_, hstored⟩
    rw [hrun]
    exact .empty
  obtain ⟨results, hok, hkept, hlength, hall⟩ := perform_resolveAll
    (fun call => yields_resolve hsettled hurl hprefetch call.1 call.2) calls hsound
  refine ⟨results, hok, hlength, hkept, fun directory options p hmem => ?_⟩
  obtain ⟨c, hc⟩ := hall (directory, options) p hmem
  refine ⟨?_, c, hc, ?_⟩
  · rw [hc.source]
    rfl
  · rw [hc.source]
    rfl

/-- A repository with one package: both ways to fetch it, and the result of the run in between. -/
theorem sources_of_one_package :
    let answers : List (List String × String) := [
      (["config", "remote.origin.url"], "https://example.org/ws.git"),
      (["rev-parse", "--show-prefix"], "pkg/"),
      (["rev-parse", "--show-toplevel"], "/ws"),
      (["rev-parse", "HEAD"], "base"),
      (["for-each-ref", "refs/remotes/origin", "--format=%(objectname)"], "base"),
      (["merge-base", "base", "base"], "base"),
      (["rev-list", "-1", "base", "--", "."], "base"),
      (["--quiet", "/ws", "base"], "[\"base\", \"whole\"]"),
      (["--quiet", "--sparse-checkout", "pkg/", "--non-cone-mode", "/ws", "base"], "[\"base\", \"part\"]")]
    let runner : Runner Unit :=
      ⟨fun c s t =>
        (((answers.lookup c.arguments).map fun stdout => { stdout : Output }).elim (.error .yaml) .ok, s, t)⟩
    let w : World Unit := { tools := (), files := ⟨∅, []⟩, storedCache := some { path := ⟨"cache.json"⟩ } }
    let calls : List (Path × Options) :=
      [(⟨"/ws/pkg"⟩, {}), (⟨"/ws/pkg"⟩, {}), (⟨"/ws/pkg"⟩, { perPackage := true })]
    ∃ results, ((resolveAll runner calls).perform w).1 = .ok results ∧
      results.map (·.toOption.map (·.source.sha256)) = [some "whole", some "whole", some "part"] ∧
      ∀ directory options p, ((directory, options), .ok p) ∈ calls.zip results →
        p.source.sha256 = if p.source.sparseCheckout.isNone then "whole" else "part" := by
  intro answers runner w calls
  have hprefetch : runner.PrefetchesBy fun _ directory => if directory.isNone then "whole" else "part" := by
    intro location revision directory s t output p houtput hp
    have hmem : ∃ stdout, ((prefetchCommand location revision directory).arguments, stdout) ∈ answers ∧
        output = { stdout } := by
      have hlookup : ((answers.lookup (prefetchCommand location revision directory).arguments).map
          fun stdout => { stdout : Output }).elim (.error Error.yaml) .ok = Except.ok output := houtput
      cases hfound : answers.lookup (prefetchCommand location revision directory).arguments with
      | none =>
        rw [hfound] at hlookup
        cases hlookup
      | some stdout =>
        rw [hfound] at hlookup
        cases hlookup
        obtain ⟨before, after, heq, -⟩ := List.lookup_eq_some_iff.1 hfound
        exact ⟨stdout, by rw [heq]; simp, rfl⟩
    obtain ⟨stdout, hmem, rfl⟩ := hmem
    cases directory with
    | none =>
      simp [answers, prefetchCommand] at hmem
      obtain ⟨⟨-, rfl⟩, rfl⟩ := hmem
      have hparse : Prefetched.parse? "[\"base\", \"whole\"]" = some ⟨"base", "whole"⟩ := by decide +kernel
      rw [hparse] at hp
      cases hp
      rfl
    | some directory =>
      simp [answers, prefetchCommand] at hmem
      obtain ⟨⟨-, -, rfl⟩, rfl⟩ := hmem
      have hparse : Prefetched.parse? "[\"base\", \"part\"]" = some ⟨"base", "part"⟩ := by decide +kernel
      rw [hparse] at hp
      cases hp
      rfl
  -- There is one remote only, and its address has no mark.
  have hurl : ∀ (r : Repository) v url, ((r.remoteUrl runner).perform v).1 = .ok url → Unmarked url := by
    intro r v url hok
    have hsame : ((r.remoteUrl runner).perform v).1.toOption = some "https://example.org/ws.git" := by
      have hask : ((r.ask runner ["config", "remote.origin.url"]).perform v).1 = .ok "https://example.org/ws.git" := by
        have htrimmed : Text.trimmed "https://example.org/ws.git" = "https://example.org/ws.git" := by decide +kernel
        exact congrArg Except.ok htrimmed
      have hline : ("https://example.org/ws.git".isEmpty ||
          "https://example.org/ws.git".toList.contains '\n') = false := by
        decide +kernel
      unfold Repository.remoteUrl Repository.askLine
      rw [Action.perform_bind_ok hask, hline]
      rfl
    rw [hok] at hsame
    cases hsame
    unfold Unmarked
    decide +kernel
  obtain ⟨results, hok, -, -, hall⟩ := sources_ignore_caches (fun _ _ _ _ _ _ _ => rfl) hprefetch hurl (w := w) rfl
    (fun c hc => by cases hc; exact fun _ _ _ _ h => by cases h) calls
  refine ⟨results, hok, ?_, fun directory options p hmem => (hall directory options p hmem).1⟩
  have hrun : ((resolveAll runner calls).perform w).1.toOption.map (·.map (·.toOption.map (·.source.sha256))) =
      some [some "whole", some "whole", some "part"] := by
    decide +kernel
  rw [hok] at hrun
  exact Option.some.inj hrun

end Provenance

end RosRecipes
