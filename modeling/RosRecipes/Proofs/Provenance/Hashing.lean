import RosRecipes.Proofs.Exchange
import RosRecipes.Proofs.Provenance.Confinement

/-!
# Finding a hash

A hash is found in the cache of the run, in the stored cache, or by a fetch, which may fail; what is found is
remembered.  These are all the ways (`Provenance.Hashed`, `Provenance.hashed_hash`).

When a package is resolved, nothing is asked but git before and after that (`Provenance.resolve_cases`).
-/

namespace RosRecipes

variable {σ : Type} {runner : Runner σ}

namespace Checkout

def storedKey (c : Checkout) (perPackage : Bool) : String :=
  StoredCache.key c.url (if perPackage then some c.subdirectory else none)

def fetchCommand (c : Checkout) (perPackage : Bool) : Command :=
  prefetchCommand c.toplevel c.revision (c.sparseCheckout perPackage)

/-- The cache of the run with a result for the source. -/
def remember (c : Checkout) (perPackage : Bool) (runCache : RunCache) (p : Prefetched) : RunCache :=
  if perPackage then runCache else runCache.insert c.toplevel p

end Checkout

namespace Exchange

theorem fetches_fetchCommand {c : Checkout} {perPackage : Bool} {answer : Except Error Output}
    {toplevel : List Path.Component} :
    fetches ⟨c.fetchCommand perPackage, answer⟩ toplevel = true ↔ c.toplevel.components = toplevel := by
  rw [fetches, Checkout.fetchCommand, fetchedFrom?_prefetchCommand]
  simp

theorem fetched?_fetchCommand (c : Checkout) (perPackage : Bool) (answer : Except Error Output) :
    fetched? ⟨c.fetchCommand perPackage, answer⟩ = fetchResult? answer := by
  rw [fetched?, Checkout.fetchCommand, fetchedFrom?_prefetchCommand]
  rfl

end Exchange

namespace Provenance

/-- The ways to find a hash, with the world that each of them leaves. -/
inductive Hashed (runner : Runner σ) (c : Checkout) (perPackage : Bool) (w : World σ) :
    Except Error Prefetched × World σ → Prop
  | remembered (p : Prefetched) (hwhole : perPackage = false) (hrun : w.runCache.get? c.toplevel c.revision = some p) :
      Hashed runner c perPackage w (.ok p, w)
  | stored (p : Prefetched) (hrun : perPackage = false → w.runCache.get? c.toplevel c.revision = none)
      (hstored : w.storedCache.bind (·.get? (c.storedKey perPackage) c.revision) = some p) :
      Hashed runner c perPackage w (.ok p, { w with runCache := c.remember perPackage w.runCache p })
  | failed (e : Error) (log : List Remark)
      (hrun : perPackage = false → w.runCache.get? c.toplevel c.revision = none)
      (hstored : w.storedCache.bind (·.get? (c.storedKey perPackage) c.revision) = none)
      (hresult : fetchResult? (runner.run (c.fetchCommand perPackage) w.tools w.files).1 = none) :
      Hashed runner c perPackage w (.error e, { w with
        tools := (runner.run (c.fetchCommand perPackage) w.tools w.files).2.1
        files := (runner.run (c.fetchCommand perPackage) w.tools w.files).2.2
        log })
  | fetched (p : Prefetched) (log : List Remark)
      (hrun : perPackage = false → w.runCache.get? c.toplevel c.revision = none)
      (hstored : w.storedCache.bind (·.get? (c.storedKey perPackage) c.revision) = none)
      (hresult : fetchResult? (runner.run (c.fetchCommand perPackage) w.tools w.files).1 = some p) :
      Hashed runner c perPackage w (.ok p, { w with
        tools := (runner.run (c.fetchCommand perPackage) w.tools w.files).2.1
        files := (runner.run (c.fetchCommand perPackage) w.tools w.files).2.2
        log
        runCache := c.remember perPackage w.runCache p
        storedCache := w.storedCache.map (·.insert (c.storedKey perPackage) p) })

private theorem hashStored_of_some {key revision : String} {toplevel : Path} {directory : Option String} {w : World σ}
    {p : Prefetched} (h : w.storedCache.bind (·.get? key revision) = some p) :
    (hashStored runner key toplevel revision directory).perform w = (.ok p, w) := by
  unfold hashStored
  rw [Action.perform_bind_ok (x := w) rfl, h]
  rfl

private theorem hashStored_of_none {key revision : String} {toplevel : Path} {directory : Option String} {w : World σ}
    (h : w.storedCache.bind (·.get? key revision) = none) :
    (hashStored runner key toplevel revision directory).perform w =
      match (prefetch runner toplevel revision directory).perform w with
      | (.ok p, v) => (.ok p, { v with storedCache := v.storedCache.map (·.insert key p) })
      | (.error e, v) => (.error e, v) := by
  unfold hashStored
  rw [Action.perform_bind_ok (x := w) rfl, h]
  dsimp only [Action.perform_get]
  rw [Action.perform_bind]
  rcases (prefetch runner toplevel revision directory).perform w with ⟨_ | _, _⟩ <;> rfl

private theorem perform_hash (c : Checkout) (perPackage : Bool) (w : World σ)
    (h : perPackage = false → w.runCache.get? c.toplevel c.revision = none) :
    (hash runner c perPackage).perform w =
      match (hashStored runner (c.storedKey perPackage) c.toplevel c.revision
        (c.sparseCheckout perPackage)).perform w with
      | (.ok p, v) => (.ok p, { v with runCache := c.remember perPackage v.runCache p })
      | (.error e, v) => (.error e, v) := by
  cases perPackage with
  | true =>
    change (hashStored runner (c.storedKey true) _ _ (c.sparseCheckout true)).perform w = _
    rcases (hashStored runner (c.storedKey true) _ _ (c.sparseCheckout true)).perform w with ⟨_ | _, _⟩ <;> rfl
  | false =>
    have hkey : c.storedKey false = StoredCache.key c.url none := rfl
    have hdirectory : c.sparseCheckout false = none := rfl
    change (hashRepository runner _ _ _).perform w = _
    unfold hashRepository
    rw [Action.perform_bind_ok (x := w) rfl, Action.perform_get, h rfl, hkey, hdirectory]
    dsimp only
    rw [Action.perform_bind]
    rcases (hashStored runner (StoredCache.key c.url none) c.toplevel c.revision none).perform w with ⟨_ | _, _⟩ <;> rfl

/-- There is no other way. -/
theorem hashed_hash (runner : Runner σ) (c : Checkout) (perPackage : Bool) (w : World σ) :
    Hashed runner c perPackage w ((hash runner c perPackage).perform w) := by
  by_cases hremembered : perPackage = false ∧ (w.runCache.get? c.toplevel c.revision).isSome
  · obtain ⟨rfl, hsome⟩ := hremembered
    obtain ⟨p, hp⟩ := Option.isSome_iff_exists.1 hsome
    have hperform : (hash runner c false).perform w = (.ok p, w) := by
      change (hashRepository runner _ _ _).perform w = _
      unfold hashRepository
      rw [Action.perform_bind_ok (x := w) rfl, Action.perform_get, hp]
      rfl
    rw [hperform]
    exact .remembered p rfl hp
  · have hrun : perPackage = false → w.runCache.get? c.toplevel c.revision = none := by
      intro hwhole
      simpa [hwhole] using hremembered
    rw [perform_hash c perPackage w hrun]
    cases hstored : w.storedCache.bind (·.get? (c.storedKey perPackage) c.revision) with
    | some p =>
      rw [hashStored_of_some hstored]
      exact .stored p hrun hstored
    | none =>
      obtain ⟨r, log, hperform, hresult⟩ :=
        perform_prefetch runner c.toplevel c.revision (c.sparseCheckout perPackage) w
      rw [hashStored_of_none hstored, hperform]
      cases r with
      | error e => exact .failed e log hrun hstored hresult.symm
      | ok p => exact .fetched p log hrun hstored hresult.symm

end Provenance

/-! ### Resolving -/

/-- Only git has been asked in between, and nothing has been remembered. -/
structure World.Asked (u w : World (σ × List Exchange)) : Prop where
  runCache : u.runCache = w.runCache
  storedCache : u.storedCache = w.storedCache
  exchanges : ∃ new, u.exchanges = w.exchanges ++ new ∧ ∀ x ∈ new, x.command.program = "git"

theorem World.Asked.refl (w : World (σ × List Exchange)) : w.Asked w :=
  ⟨rfl, rfl, [], (List.append_nil _).symm, nofun⟩

namespace Repository

variable {r : Repository} {w w' : World (σ × List Exchange)} {arguments : List String} {answer : String}

/-- A question that was answered is noted. -/
theorem exchanges_of_ask (h : (r.ask runner.recorded arguments).perform w = (.ok answer, w')) :
    ∃ output, w'.exchanges = w.exchanges ++ [⟨r.question arguments, .ok output⟩] ∧
      Text.trimmed output.stdout = answer := by
  obtain ⟨output, v, hcall, hreturn⟩ := Action.bind_ok_cases h
  cases hreturn
  have hexchanges := exchanges_call runner (r.question arguments) w
  have hanswer : (runner.run (r.question arguments) w.tools.1 w.files).1 = .ok output := by
    rw [Action.perform_call] at hcall
    exact congrArg Prod.fst hcall
  rw [hcall, hanswer] at hexchanges
  exact ⟨output, hexchanges, rfl⟩

theorem ask_of_askLine (h : (r.askLine runner.recorded arguments).perform w = (.ok answer, w')) :
    (r.ask runner.recorded arguments).perform w = (.ok answer, w') := by
  obtain ⟨answer', v, hask, hline⟩ := Action.bind_ok_cases h
  split at hline
  · cases hline
  · cases hline
    exact hask

end Repository

private theorem confined_question (r : Repository) (arguments : List String) (w : World (σ × List Exchange)) :
    Action.Confined (World.Asked · w) (fun _ => True) (Action.call runner.recorded (r.question arguments)) := by
  intro v h
  obtain ⟨new, hnew, hgit⟩ := h.exchanges
  refine ⟨?_, fun _ _ => trivial⟩
  have hexchanges := exchanges_call runner (r.question arguments) v
  rw [hnew, List.append_assoc] at hexchanges
  rw [Action.perform_call] at hexchanges ⊢
  exact ⟨h.runCache, h.storedCache, _, hexchanges,
    List.forall_mem_append.2 ⟨hgit, List.forall_mem_singleton.2 rfl⟩⟩

private theorem confines_asked (runner : Runner σ) (r : Repository) (w : World (σ × List Exchange)) :
    r.Confines runner.recorded (World.Asked · w) fun _ => True where
  call arguments _ := confined_question r arguments w
  minor _ _ := trivial
  files _ _ h := ⟨h.runCache, h.storedCache, h.exchanges⟩

namespace Provenance

/-- Before and after a hash is found, only git is asked. -/
theorem resolve_cases (runner : Runner σ) (directory : Path) (options : Options) (w : World (σ × List Exchange)) :
    ∃ r u, (inspect runner.recorded ⟨directory⟩ options.perPackage).perform w = (r, u) ∧ u.Asked w ∧
      match r with
      | .error _ => ((resolve runner.recorded directory options).perform w).2 = u
      | .ok c => ((resolve runner.recorded directory options).perform w).2.Asked
          ((hash runner.recorded c options.perPackage).perform u).2 := by
  have hasked := ((confines_asked runner ⟨directory⟩ w).inspect (fun arguments _ => confined_question _ _ w)
    options.perPackage w (.refl w)).1
  rcases hinspect : (inspect runner.recorded ⟨directory⟩ options.perPackage).perform w with ⟨r, u⟩
  rw [hinspect] at hasked
  refine ⟨r, u, rfl, hasked, ?_⟩
  unfold resolve
  cases r with
  | error e => rw [Action.perform_bind_error (congrArg Prod.fst hinspect), hinspect]
  | ok c =>
    rw [Action.perform_bind_ok (congrArg Prod.fst hinspect), hinspect]
    dsimp only
    rcases hhash : (hash runner.recorded c options.perPackage).perform u with ⟨_ | hashed, v⟩
    · rw [Action.perform_bind_error (congrArg Prod.fst hhash), hhash]
      exact .refl v
    · rw [Action.perform_bind_ok (congrArg Prod.fst hhash), hhash]
      have hpatches := (confines_asked runner ⟨directory⟩ v).localPatches c.revision options.patches
      have hwarn : ∀ drops, Action.Confined (World.Asked · v) (fun _ => True) (warnOfDropped c drops) :=
        confined_warnOfDropped (fun w _ h => ⟨h.runCache, h.storedCache, h.exchanges⟩) c
      exact ((hpatches.bind fun _ => (hwarn _).bind fun _ => .pure _) v (.refl v)).1

end Provenance

end RosRecipes
