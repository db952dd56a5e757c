import RosRecipes.Proofs.Provenance.Hashing

/-!
# What a package leaves in the caches

A package finds at most one hash, so each cache has at most one result more after it, or another one under the same
key (`World.Gained`).  It is the result of a fetch, or, in the cache of the run, a stored one for the newest revision
that the remote knows.

* `Provenance.gained_resolve`: so it is whatever comes of the package.
-/

namespace RosRecipes

variable {σ : Type} {runner : Runner σ}

/-- Git has told the newest revision of the repository that the remote knows. -/
def Exchange.TellsMergeBase (x : Exchange) (revision : String) : Prop :=
  x.command.program = "git" ∧ x.command.arguments.head? = some "merge-base" ∧
    ∃ output, x.answer = .ok output ∧ Text.trimmed output.stdout = revision

/-- Programs have been called in between, and nothing has been remembered. -/
structure World.Talked (u w : World (σ × List Exchange)) : Prop where
  runCache : u.runCache = w.runCache
  storedCache : u.storedCache = w.storedCache
  exchanges : w.exchanges <+: u.exchanges

/-- In between there were the exchanges `new`, and each cache has at most one result more, or another one under the same
key. -/
structure World.Gained (new : List Exchange) (u w : World (σ × List Exchange)) : Prop where
  exchanges : u.exchanges = w.exchanges ++ new
  /-- The result was fetched, or it was stored for the newest revision of the repository. -/
  runCache : u.runCache = w.runCache ∨ ∃ toplevel p, u.runCache = w.runCache.insert toplevel p ∧
    ((∃ x ∈ new, x.fetched? = some p) ∨
      ∃ cache key revision, w.storedCache = some cache ∧ cache.get? key revision = some p ∧
        ∃ x ∈ new, x.TellsMergeBase revision)
  /-- The result was fetched. -/
  storedCache : u.storedCache = w.storedCache ∨ ∃ key p, u.storedCache = w.storedCache.map (·.insert key p) ∧
    ∃ x ∈ new, x.fetched? = some p

namespace World

variable {new : List Exchange} {u v v' w : World (σ × List Exchange)}

theorem Talked.refl (w : World (σ × List Exchange)) : w.Talked w := ⟨rfl, rfl, List.prefix_refl _⟩

theorem Talked.trans (h : u.Talked v) (h' : v.Talked w) : u.Talked w :=
  ⟨h.runCache.trans h'.runCache, h.storedCache.trans h'.storedCache, h'.exchanges.trans h.exchanges⟩

theorem Asked.talked (h : u.Asked w) : u.Talked w := by
  obtain ⟨new, hnew, -⟩ := h.exchanges
  exact ⟨h.runCache, h.storedCache, new, hnew.symm⟩

theorem Talked.gained (h : u.Talked w) : ∃ new, Gained new u w := by
  obtain ⟨new, hnew⟩ := h.exchanges
  exact ⟨new, hnew.symm, .inl h.runCache, .inl h.storedCache⟩

/-- What has been gained is still there when more was said before and after it. -/
theorem Gained.amid (h : Gained new v' v) (hbefore : v.Talked w) (hafter : u.Talked v') :
    ∃ new', Gained new' u w := by
  obtain ⟨before, hexchanges⟩ := hbefore.exchanges
  obtain ⟨after, hexchanges'⟩ := hafter.exchanges
  have hmem : ∀ x ∈ new, x ∈ before ++ new ++ after :=
    fun x hx => List.mem_append_left _ (List.mem_append_right _ hx)
  refine ⟨before ++ new ++ after, ?_, ?_, ?_⟩
  · rw [← hexchanges', h.exchanges, ← hexchanges, List.append_assoc, List.append_assoc, List.append_assoc]
  · rw [hafter.runCache, ← hbefore.runCache, ← hbefore.storedCache]
    refine h.runCache.imp_right ?_
    rintro ⟨toplevel, p, hinsert, ⟨x, hx, hfetched⟩ | ⟨cache, key, revision, hcache, hget, x, hx, htells⟩⟩
    · exact ⟨toplevel, p, hinsert, .inl ⟨x, hmem x hx, hfetched⟩⟩
    · exact ⟨toplevel, p, hinsert, .inr ⟨cache, key, revision, hcache, hget, x, hmem x hx, htells⟩⟩
  · rw [hafter.storedCache, ← hbefore.storedCache]
    refine h.storedCache.imp_right ?_
    rintro ⟨key, p, hinsert, x, hx, hfetched⟩
    exact ⟨key, p, hinsert, x, hmem x hx, hfetched⟩

end World

/-! ### The newest revision -/

namespace Repository

variable {r : Repository} {w w' : World (σ × List Exchange)} {arguments : List String} {answer : String}

private theorem prefix_of_ask (h : (r.ask runner.recorded arguments).perform w = (.ok answer, w')) :
    w.exchanges <+: w'.exchanges := by
  obtain ⟨output, hexchanges, -⟩ := exchanges_of_ask h
  exact ⟨_, hexchanges.symm⟩

/-- The newest revision is what git has told last. -/
private theorem tells_of_mergeBase {commit : String}
    (h : (r.mergeBase runner.recorded commit).perform w = (.ok answer, w')) :
    ∃ before x, w'.exchanges = before ++ [x] ∧ w.exchanges <+: before ∧ x.TellsMergeBase answer := by
  obtain ⟨tips, v, htips, h⟩ := Action.bind_ok_cases h
  obtain ⟨listed, v', hlisted, hreturn⟩ := Action.bind_ok_cases htips
  cases hreturn
  cases hnone : (dropRepeated (answerLines listed)).isEmpty with
  | true =>
    rw [hnone] at h
    obtain ⟨outcome, u, -, h⟩ := Action.bind_ok_cases h
    cases outcome <;> cases h
  | false =>
    rw [hnone] at h
    obtain ⟨output, hexchanges, hanswer⟩ := exchanges_of_ask (ask_of_askLine h)
    exact ⟨_, _, hexchanges, prefix_of_ask hlisted, rfl, rfl, output, rfl, hanswer⟩

end Repository

namespace Provenance

variable {w u : World (σ × List Exchange)} {c : Checkout}

/-- For the source of a whole repository, git has told its revision last. -/
private theorem tells_of_inspect {r : Repository} (h : (inspect runner.recorded r false).perform w = (.ok c, u)) :
    ∃ before x, u.exchanges = before ++ [x] ∧ w.exchanges <+: before ∧ x.TellsMergeBase c.revision := by
  obtain ⟨url, v₁, hurl, h⟩ := Action.bind_ok_cases h
  obtain ⟨subdirectory, v₂, hsubdirectory, h⟩ := Action.bind_ok_cases h
  obtain ⟨toplevel, v₃, htoplevel, h⟩ := Action.bind_ok_cases h
  obtain ⟨line, v₃', hline, hreturn⟩ := Action.bind_ok_cases htoplevel
  cases hreturn
  obtain ⟨head, v₄, hhead, h⟩ := Action.bind_ok_cases h
  obtain ⟨mergeBase, v₅, hmergeBase, h⟩ := Action.bind_ok_cases h
  cases h
  obtain ⟨before, x, hexchanges, hbefore, htells⟩ := Repository.tells_of_mergeBase hmergeBase
  have hasked : w.exchanges <+: v₄.exchanges :=
    (Repository.prefix_of_ask (Repository.ask_of_askLine hurl)).trans <|
      (Repository.prefix_of_ask hsubdirectory).trans <|
        (Repository.prefix_of_ask (Repository.ask_of_askLine hline)).trans <|
          Repository.prefix_of_ask (Repository.ask_of_askLine hhead)
  exact ⟨before, x, hexchanges, hasked.trans hbefore, htells⟩

/-! ### Results -/

/-- A hash is gained, if it was not in the cache of the run. -/
private theorem gained_hash {perPackage : Bool} (hasked : u.Talked w)
    (hinspect : (inspect runner.recorded ⟨directory⟩ perPackage).perform w = (.ok c, u)) :
    ∃ new, World.Gained new ((hash runner.recorded c perPackage).perform u).2 w := by
  have hashed := hashed_hash runner.recorded c perPackage u
  obtain ⟨asked, hexchanges⟩ := hasked.exchanges
  generalize (hash runner.recorded c perPackage).perform u = after at hashed
  cases hashed with
  | remembered p hwhole hrun => exact hasked.gained
  | stored p hrun hstored =>
    cases perPackage with
    | true => exact hasked.gained
    | false =>
      obtain ⟨before, x, htold, ⟨more, hmore⟩, htells⟩ := tells_of_inspect hinspect
      obtain ⟨cache, hcache, hget⟩ := Option.bind_eq_some_iff.1 hstored
      refine ⟨more ++ [x], ?_, .inr ⟨c.toplevel, p, ?_, .inr ⟨cache, _, c.revision, ?_, hget, x, ?_, htells⟩⟩, ?_⟩
      · exact htold.trans (by rw [← hmore, List.append_assoc])
      · rw [← hasked.runCache]
        rfl
      · rw [← hasked.storedCache, hcache]
      · exact List.mem_append_right _ (List.mem_singleton_self x)
      · exact .inl hasked.storedCache
  | failed e log hrun hstored hresult =>
    exact World.Talked.gained ⟨hasked.runCache, hasked.storedCache, hasked.exchanges.trans ⟨[_], rfl⟩⟩
  | fetched p log hrun hstored hresult =>
    have hfetched := (Exchange.fetched?_fetchCommand c perPackage _).trans hresult
    have hnew := List.mem_append_right asked (List.mem_singleton_self
      (⟨c.fetchCommand perPackage, (runner.run (c.fetchCommand perPackage) u.tools.1 u.files).1⟩ : Exchange))
    refine ⟨_, ?_, ?_, .inr ⟨c.storedKey perPackage, p, ?_, _, hnew, hfetched⟩⟩
    · rw [← List.append_assoc, hexchanges]
      rfl
    · cases perPackage with
      | true => exact .inl hasked.runCache
      | false => exact .inr ⟨c.toplevel, p, by rw [← hasked.runCache]; rfl, .inl ⟨_, hnew, hfetched⟩⟩
    · rw [← hasked.storedCache]

/-- A package leaves at most one result in each cache. -/
theorem gained_resolve (runner : Runner σ) (directory : Path) (options : Options) (w : World (σ × List Exchange)) :
    ∃ new, World.Gained new ((resolve runner.recorded directory options).perform w).2 w := by
  obtain ⟨r, u, hinspect, hasked, hcases⟩ := resolve_cases runner directory options w
  cases r with
  | error e =>
    dsimp only at hcases
    rw [hcases]
    exact hasked.talked.gained
  | ok c =>
    obtain ⟨new, hgained⟩ := gained_hash hasked.talked hinspect
    exact hgained.amid (.refl w) hcases.talked

end Provenance

end RosRecipes
