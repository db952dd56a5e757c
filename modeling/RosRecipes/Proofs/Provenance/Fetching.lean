import RosRecipes.Proofs.Provenance.Caches
import RosRecipes.Proofs.Provenance.Hashing

/-!
# Fetching once

In a run each repository is fetched at most once, as long as its newest revision stays the same: what has been fetched
is remembered under its top directory, whatever else is remembered under its address.

* `FetchedOnce` is kept by each package (`fetchedOnce_resolve`), and so by all packages of a run.
* `fetches_once` says so of the record of exchanges.
-/

namespace RosRecipes

variable {σ : Type} {runner : Runner σ} {upstream remote : List Path.Component → String}

/-- A fetch of a whole repository that succeeds gives the revision that was asked for. -/
def Runner.FetchesRequested (runner : Runner σ) : Prop :=
  ∀ location revision s t p, fetchResult? (runner.run (prefetchCommand location revision none) s t).1 = some p →
    p.revision = revision

/-- The stored cache has an entry under the address of a repository, for its newest revision. -/
def World.HasStored (upstream remote : List Path.Component → String) (w : World σ) (toplevel : List Path.Component) :
    Prop :=
  ∃ cache p, w.storedCache = some cache ∧ cache.entries.get? (remote toplevel) = some p ∧
    p.revision = upstream toplevel

/-- Such an entry is found. -/
theorem World.HasStored.get?_ne_none {w : World σ} {toplevel : List Path.Component}
    (h : w.HasStored upstream remote toplevel) :
    w.storedCache.bind (·.get? (StoredCache.key (remote toplevel) none) (upstream toplevel)) ≠ none := by
  obtain ⟨cache, p, hcache, hentry, hrevision⟩ := h
  have hfound : cache.get? (StoredCache.key (remote toplevel) none) (upstream toplevel) = some p :=
    Option.filter_eq_some_iff.2 ⟨hentry, decide_eq_true hrevision⟩
  rw [hcache, Option.bind_some, hfound]
  exact Option.some_ne_none p

/-- What has been fetched is remembered for its newest revision, and is not fetched again. -/
structure FetchedOnce (upstream : List Path.Component → String) (w : World (σ × List Exchange)) : Prop where
  remembered : ∀ x ∈ w.exchanges, ∀ toplevel, x.fetches toplevel = true → x.fetched?.isSome = true →
    ∃ p, w.runCache.entries.get? toplevel = some p ∧ p.revision = upstream toplevel
  once : w.exchanges.Pairwise fun x y =>
    ∀ toplevel, x.fetches toplevel = true → x.fetched?.isSome = true → y.fetches toplevel = false

namespace FetchedOnce

variable {u w : World (σ × List Exchange)}

theorem of_asked (hu : u.Asked w) (h : FetchedOnce upstream w) : FetchedOnce upstream u := by
  obtain ⟨new, hnew, hgit⟩ := hu.exchanges
  have hother : ∀ y ∈ new, ∀ toplevel, y.fetches toplevel = false := fun y hy => Exchange.fetches_of_git (hgit y hy)
  constructor
  · rw [hnew, hu.runCache]
    intro x hx toplevel hfetches hfetched
    rcases List.mem_append.1 hx with hx | hx
    · exact h.remembered x hx toplevel hfetches hfetched
    · rw [hother x hx] at hfetches
      cases hfetches
  · rw [hnew, List.pairwise_append]
    refine ⟨h.once, List.pairwise_of_forall_mem_list fun x _ y hy toplevel _ _ => hother y hy toplevel, ?_⟩
    exact fun x _ y hy toplevel _ _ => hother y hy toplevel

/-- What is remembered for the newest revision does no harm. -/
private theorem remember (h : FetchedOnce upstream w) {toplevel : Path} {p : Prefetched}
    (hp : p.revision = upstream toplevel.components) :
    FetchedOnce upstream { w with runCache := w.runCache.insert toplevel p } := by
  refine ⟨fun x hx other hfetches hfetched => ?_, h.once⟩
  by_cases hother : other = toplevel.components
  · exact ⟨p, by rw [RunCache.insert, Table.get?_insert, if_pos hother], hother ▸ hp⟩
  · obtain ⟨q, hq, hrevision⟩ := h.remembered x hx other hfetches hfetched
    exact ⟨q, by rw [RunCache.insert, Table.get?_insert, if_neg hother, hq], hrevision⟩

private theorem not_fetched (h : FetchedOnce upstream w) {toplevel : Path}
    (hnone : w.runCache.get? toplevel (upstream toplevel.components) = none) {x : Exchange} (hx : x ∈ w.exchanges)
    (hfetches : x.fetches toplevel.components = true) : x.fetched?.isSome = false := by
  refine Bool.eq_false_iff.2 fun hfetched => ?_
  obtain ⟨p, hp, hrevision⟩ := h.remembered x hx _ hfetches hfetched
  have hsome : w.runCache.get? toplevel (upstream toplevel.components) = some p :=
    Option.filter_eq_some_iff.2 ⟨hp, decide_eq_true hrevision⟩
  rw [hsome] at hnone
  cases hnone

/-- A repository that is not remembered is fetched for the first time. -/
private theorem pairwise_fetch (h : FetchedOnce upstream w) {c : Checkout} {answer : Except Error Output}
    (hnone : w.runCache.get? c.toplevel (upstream c.toplevel.components) = none) :
    List.Pairwise (fun x y : Exchange =>
        ∀ toplevel, x.fetches toplevel = true → x.fetched?.isSome = true → y.fetches toplevel = false)
      (w.exchanges ++ [⟨c.fetchCommand false, answer⟩]) := by
  refine List.pairwise_append.2 ⟨h.once, List.pairwise_singleton _ _, fun x hx y hy toplevel hfetches hfetched => ?_⟩
  rw [List.mem_singleton.1 hy]
  refine Bool.eq_false_iff.2 fun hagain => ?_
  obtain rfl := Exchange.fetches_fetchCommand.1 hagain
  rw [h.not_fetched hnone hx hfetches] at hfetched
  cases hfetched

end FetchedOnce

namespace Provenance

variable {w : World (σ × List Exchange)} {c : Checkout}

/-- Finding a hash fetches the repository only if it has not been fetched, and is not stored. -/
private theorem fetchedOnce_hash (hprefetch : runner.FetchesRequested) (h : FetchedOnce upstream w)
    (hrevision : c.revision = upstream c.toplevel.components) (hurl : c.url = remote c.toplevel.components) :
    FetchedOnce upstream ((hash runner.recorded c false).perform w).2 ∧
      ∃ new, ((hash runner.recorded c false).perform w).2.exchanges = w.exchanges ++ new ∧
        ∀ toplevel, w.HasStored upstream remote toplevel → ∀ x ∈ new, x.fetches toplevel = false := by
  have hashed := hashed_hash runner.recorded c false w
  -- The only repository that is fetched is not stored.
  have hfetch : w.storedCache.bind (·.get? (c.storedKey false) c.revision) = none → ∀ answer toplevel,
      w.HasStored upstream remote toplevel → ∀ x ∈ [(⟨c.fetchCommand false, answer⟩ : Exchange)],
        x.fetches toplevel = false := by
    intro hnone answer toplevel hstored x hx
    rw [List.mem_singleton.1 hx]
    refine Bool.eq_false_iff.2 fun hfetches => ?_
    obtain rfl := Exchange.fetches_fetchCommand.1 hfetches
    have hfound := hstored.get?_ne_none
    rw [← hrevision, ← hurl] at hfound
    exact hfound hnone
  generalize (hash runner.recorded c false).perform w = after at hashed
  cases hashed with
  -- Nothing is fetched as long as a cache has the result.
  | remembered p hwhole hrun => exact ⟨h, [], (List.append_nil _).symm, nofun⟩
  | stored p hrun hstored =>
    obtain ⟨cache, -, hp⟩ := Option.bind_eq_some_iff.1 hstored
    have hp' : p.revision = c.revision := of_decide_eq_true (Option.filter_eq_some_iff.1 hp).2
    exact ⟨h.remember (hp'.trans hrevision), [], (List.append_nil _).symm, nofun⟩
  -- What is not remembered has not been fetched; only a fetch that succeeds has to be remembered.
  | failed e log hrun hstored hresult =>
    have hrun' := hrun rfl
    rw [hrevision] at hrun'
    refine ⟨⟨?_, h.pairwise_fetch hrun'⟩, [_], rfl, hfetch hstored _⟩
    intro x hx toplevel hfetches hfetched
    rcases List.mem_append.1 hx with hx | hx
    · exact h.remembered x hx toplevel hfetches hfetched
    · rw [List.mem_singleton.1 hx, Exchange.fetched?_fetchCommand] at hfetched
      cases hfetched.symm.trans (congrArg Option.isSome hresult)
  | fetched p log hrun hstored hresult =>
    have hrun' := hrun rfl
    rw [hrevision] at hrun'
    have hp := hprefetch _ _ _ _ _ hresult
    refine ⟨⟨?_, h.pairwise_fetch hrun'⟩, [_], rfl, hfetch hstored _⟩
    intro x hx toplevel hfetches hfetched
    rcases List.mem_append.1 hx with hx | hx
    · exact (h.remember (hp.trans hrevision)).remembered x hx toplevel hfetches hfetched
    · rw [List.mem_singleton.1 hx] at hfetches
      obtain rfl := Exchange.fetches_fetchCommand.1 hfetches
      exact ⟨p, by rw [Checkout.remember, if_neg Bool.false_ne_true, RunCache.insert, Table.get?_insert, if_pos rfl],
        hp.trans hrevision⟩

/-- A package fetches its repository only if it has not been fetched, and is not stored. -/
theorem fetchedOnce_resolve (hprefetch : runner.FetchesRequested) (h : FetchedOnce upstream w) {directory : Path}
    {options : Options} (hwhole : options.perPackage = false)
    (hsteady : ∀ c, ((inspect runner.recorded ⟨directory⟩ false).perform w).1 = .ok c →
      c.revision = upstream c.toplevel.components ∧ c.url = remote c.toplevel.components) :
    FetchedOnce upstream ((resolve runner.recorded directory options).perform w).2 ∧
      ∃ new, ((resolve runner.recorded directory options).perform w).2.exchanges = w.exchanges ++ new ∧
        ∀ toplevel, w.HasStored upstream remote toplevel → ∀ x ∈ new, x.fetches toplevel = false := by
  obtain ⟨r, u, hinspect, hasked, hcases⟩ := resolve_cases runner directory options w
  rw [hwhole] at hinspect hcases
  obtain ⟨asked, hasked', hgit⟩ := hasked.exchanges
  have hother : ∀ toplevel, ∀ x ∈ asked, x.fetches toplevel = false :=
    fun toplevel x hx => Exchange.fetches_of_git (hgit x hx) toplevel
  cases r with
  | error e =>
    dsimp only at hcases
    rw [hcases]
    exact ⟨h.of_asked hasked, asked, hasked', fun toplevel _ => hother toplevel⟩
  | ok c =>
    dsimp only at hcases
    obtain ⟨hrevision, hurl⟩ := hsteady c (congrArg Prod.fst hinspect)
    obtain ⟨honce, new, hnew, hstored⟩ := fetchedOnce_hash hprefetch (h.of_asked hasked) hrevision hurl
    obtain ⟨later, hlater, hgit'⟩ := hcases.exchanges
    refine ⟨honce.of_asked hcases, asked ++ new ++ later, ?_, fun toplevel hhas => ?_⟩
    · rw [hlater, hnew, hasked', List.append_assoc, List.append_assoc, List.append_assoc]
    · have hhas' : u.HasStored upstream remote toplevel := by
        rw [World.HasStored, hasked.storedCache]
        exact hhas
      refine List.forall_mem_append.2 ⟨List.forall_mem_append.2 ⟨hother toplevel, hstored toplevel hhas'⟩, ?_⟩
      exact fun x hx => Exchange.fetches_of_git (hgit' x hx) toplevel

/-! ### Runs -/

private theorem countP_le_one {α : Type} {p : α → Bool} {l : List α}
    (h : l.Pairwise fun x y => p x = true → p y = false) : l.countP p ≤ 1 := by
  induction h with
  | nil => exact Nat.zero_le 1
  | @cons x l hx _ ih =>
    rw [List.countP_cons]
    cases hp : p x with
    | false => simpa using ih
    | true =>
      have hrest : l.countP p = 0 := List.countP_eq_zero.2 fun y hy => by simp [hx y hy hp]
      simp [hrest]

private theorem after_cons (call : Path × Options) (calls : List (Path × Options)) (w : World σ) :
    ((resolveAll runner (call :: calls)).perform w).2 =
      ((resolveAll runner calls).perform ((resolve runner call.1 call.2).perform w).2).2 := by
  unfold resolveAll
  rw [List.mapM_cons, Action.perform_bind_ok rfl, Action.perform_attempt, Action.perform_bind]
  rcases (calls.mapM _ : Action σ _).perform _ with ⟨_ | _, _⟩ <;> rfl

/-- Each time that git is asked about a repository during the run, it has the same newest revision and the same
remote. -/
def SteadyRemotes (runner : Runner σ) (upstream remote : List Path.Component → String) (calls : List (Path × Options))
    (start : World (σ × List Exchange)) : Prop :=
  ∀ before call rest, calls = before ++ call :: rest → ∀ c,
    ((inspect runner.recorded ⟨call.1⟩ false).perform ((resolveAll runner.recorded before).perform start).2).1 = .ok c →
      c.revision = upstream c.toplevel.components ∧ c.url = remote c.toplevel.components

private theorem SteadyRemotes.tail {call : Path × Options} {calls : List (Path × Options)}
    (h : SteadyRemotes runner upstream remote (call :: calls) w) :
    SteadyRemotes runner upstream remote calls ((resolve runner.recorded call.1 call.2).perform w).2 := by
  rintro before call' rest rfl c hc
  rw [← after_cons] at hc
  exact h (call :: before) call' rest rfl c hc

private theorem fetchedOnce_resolveAll (hprefetch : runner.FetchesRequested) {before rest : List (Path × Options)}
    (hwhole : ∀ call ∈ before ++ rest, call.2.perPackage = false) (h : FetchedOnce upstream w)
    (hsteady : SteadyRemotes runner upstream remote (before ++ rest) w) :
    FetchedOnce upstream ((resolveAll runner.recorded before).perform w).2 := by
  induction before generalizing w with
  | nil => exact h
  | cons call before ih =>
    rw [after_cons]
    rw [List.cons_append] at hwhole hsteady
    obtain ⟨hcall, hothers⟩ := List.forall_mem_cons.1 hwhole
    exact ih hothers (fetchedOnce_resolve hprefetch h hcall (hsteady [] call _ rfl)).1 hsteady.tail

/-- A repository is fetched at most once in a run.  Suppose that the newest revision of each top directory and the
address of its remote do not change during the run, and that a fetch that succeeds gives the revision that was asked
for.  Then, with whatever caches the run starts and whichever packages fail:

* For each top directory at most one fetch succeeds, and there is none after that.
* A package does not fetch a repository as long as the stored cache has an entry under the address of its remote, for
  its newest revision. -/
theorem fetches_once (hprefetch : runner.FetchesRequested) {start : World (σ × List Exchange)}
    (hstart : start.exchanges = []) {calls : List (Path × Options)}
    (hwhole : ∀ call ∈ calls, call.2.perPackage = false) (hsteady : SteadyRemotes runner upstream remote calls start) :
    let after := fun calls => ((resolveAll runner.recorded calls).perform start).2
    (∀ toplevel, (after calls).exchanges.countP (fun x => x.fetches toplevel && x.fetched?.isSome) ≤ 1) ∧
    (∀ before x later toplevel, (after calls).exchanges = before ++ x :: later → x.fetches toplevel = true →
      x.fetched?.isSome = true → ∀ y ∈ later, y.fetches toplevel = false) ∧
    ∀ before call rest, calls = before ++ call :: rest →
      ∃ new, ((resolve runner.recorded call.1 call.2).perform (after before)).2.exchanges =
          (after before).exchanges ++ new ∧
        ∀ toplevel, (after before).HasStored upstream remote toplevel → ∀ x ∈ new, x.fetches toplevel = false := by
  intro after
  have hnothing : FetchedOnce upstream start := by
    constructor
    · rw [hstart]
      exact nofun
    · rw [hstart]
      exact .nil
  have honce : (after calls).exchanges.Pairwise fun x y =>
      ∀ toplevel, x.fetches toplevel = true → x.fetched?.isSome = true → y.fetches toplevel = false := by
    rw [← List.append_nil calls] at hwhole hsteady
    exact (fetchedOnce_resolveAll hprefetch hwhole hnothing hsteady).once
  refine ⟨fun toplevel => ?_, ?_, ?_⟩
  · refine countP_le_one (honce.imp fun {x y} hxy hx => ?_)
    obtain ⟨hfetches, hfetched⟩ := Bool.and_eq_true_iff.1 hx
    rw [hxy toplevel hfetches hfetched, Bool.false_and]
  · intro before x later toplevel hexchanges hfetches hfetched y hy
    rw [hexchanges] at honce
    exact List.rel_of_pairwise_cons (List.pairwise_append.1 honce).2.1 hy toplevel hfetches hfetched
  · rintro before call rest rfl
    exact (fetchedOnce_resolve hprefetch (fetchedOnce_resolveAll hprefetch hwhole hnothing hsteady)
      (hwhole call (by simp)) (hsteady before call rest rfl)).2

/-! ### Two repositories -/

/-- What git says about a repository that is up to date, and what a fetch of it gives. -/
def answersOf (toplevel revision : String) : List ((Option Path × List String) × String) := [
  ((some ⟨toplevel⟩, ["config", "remote.origin.url"]), "https://example.org/ws.git"),
  ((some ⟨toplevel⟩, ["rev-parse", "--show-prefix"]), ""),
  ((some ⟨toplevel⟩, ["rev-parse", "--show-toplevel"]), toplevel),
  ((some ⟨toplevel⟩, ["rev-parse", "HEAD"]), revision),
  ((some ⟨toplevel⟩, ["for-each-ref", "refs/remotes/origin", "--format=%(objectname)"]), revision),
  ((some ⟨toplevel⟩, ["merge-base", revision, revision]), revision),
  ((none, ["--quiet", toplevel, revision]), "[\"" ++ revision ++ "\", \"hash\"]")]

/-- Two repositories with one address and different revisions; other directories are in none. -/
def twoRepositories : Runner Unit :=
  .ofAnswer fun c =>
    match (answersOf "/a" "one" ++ answersOf "/b" "two").lookup (c.directory, c.arguments) with
    | some stdout => .ok { stdout }
    | none => .error (.commandFailed c.line c.shownDirectory "exit status: 1" "")

private theorem fetchesRequested_twoRepositories : twoRepositories.FetchesRequested := by
  intro location revision s t p hp
  -- All that the table has outside of the repositories are fetches of the last argument.
  have htable : ∀ x ∈ answersOf "/a" "one" ++ answersOf "/b" "two", x.1.1 = none →
      (Prefetched.parse? x.2).map (·.revision) = x.1.2.getLast? := by
    decide +kernel
  unfold twoRepositories Runner.ofAnswer at hp
  dsimp only at hp
  split at hp
  · next stdout hlookup =>
    obtain ⟨before, after, htable', -⟩ := List.lookup_eq_some_iff.1 hlookup
    have hrevision := htable _ (htable' ▸ List.mem_append_right before List.mem_cons_self) rfl
    change Prefetched.parse? stdout = some p at hp
    rw [hp] at hrevision
    exact Option.some.inj hrevision
  · cases hp

/-- Packages of both repositories, in turn; one is in none. -/
def callsInTurn : List (Path × Options) := [(⟨"/a"⟩, {}), (⟨"/b"⟩, {}), (⟨"/c"⟩, {}), (⟨"/a"⟩, {}), (⟨"/b"⟩, {})]

/-- The stored cache has the first of the two repositories, so it is not fetched.  The second one takes its place there
and is fetched once, and the first one is still remembered. -/
theorem fetches_of_two_repositories :
    let start : World (Unit × List Exchange) :=
      { tools := ((), []), files := ⟨∅, []⟩, storedCache := some
          { path := ⟨"/cache.json"⟩, entries := ⟨[("https://example.org/ws.git", ⟨"one", "hash"⟩)]⟩ } }
    let w := ((resolveAll twoRepositories.recorded callsInTurn).perform start).2
    w.exchanges.filterMap (·.command.fetchedFrom?) = [⟨"/b"⟩] ∧
      w.storedCache.map (·.entries.entries) = some [("https://example.org/ws.git", ⟨"two", "hash"⟩)] ∧
      (∀ toplevel, w.exchanges.countP (fun x => x.fetches toplevel && x.fetched?.isSome) ≤ 1) ∧
      (∀ before x later toplevel, w.exchanges = before ++ x :: later → x.fetches toplevel = true →
        x.fetched?.isSome = true → ∀ y ∈ later, y.fetches toplevel = false) ∧
      ∀ x ∈ ((resolve twoRepositories.recorded ⟨"/a"⟩ {}).perform start).2.exchanges,
        x.fetches (Path.components ⟨"/a"⟩) = false := by
  intro start w
  have hsteady : SteadyRemotes twoRepositories
      (fun toplevel => if toplevel = Path.components ⟨"/a"⟩ then "one" else "two")
      (fun _ => "https://example.org/ws.git") callsInTurn start := by
    rintro before call rest hcalls c hc
    -- What git says does not depend on the world.
    have hgit : Repository.AnswersSettled twoRepositories.recorded (fun _ _ => True) ⟨call.1⟩ :=
      fun _ _ => .call (fun _ _ _ _ => rfl) fun _ _ => trivial
    have hsettled := settled_inspect ⟨fun _ => trivial, fun _ => trivial, fun _ _ => trivial⟩ hgit false
    rw [(hsettled _ start).1] at hc
    have hmem : call ∈ callsInTurn := by
      rw [hcalls]
      simp
    have hall : ∀ call ∈ callsInTurn,
        ((inspect twoRepositories.recorded ⟨call.1⟩ false).perform start).1.toOption.all fun c =>
          c.revision = (if c.toplevel.components = Path.components ⟨"/a"⟩ then "one" else "two") ∧
            c.url = "https://example.org/ws.git" := by
      decide +kernel
    have hcall := hall call hmem
    rw [hc] at hcall
    exact of_decide_eq_true hcall
  obtain ⟨hcount, hafter, hstored⟩ := fetches_once fetchesRequested_twoRepositories rfl (by decide) hsteady
  refine ⟨by decide +kernel, by decide +kernel, hcount, hafter, fun x hx => ?_⟩
  obtain ⟨new, hnew, hnone⟩ := hstored [] (⟨"/a"⟩, {}) _ rfl
  have hnew' : ((resolve twoRepositories.recorded ⟨"/a"⟩ {}).perform start).2.exchanges = new := hnew
  rw [hnew'] at hx
  exact hnone _ ⟨_, ⟨"one", "hash"⟩, rfl, by decide +kernel, by decide +kernel⟩ x hx

end Provenance

end RosRecipes
