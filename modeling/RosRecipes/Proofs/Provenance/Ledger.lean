import RosRecipes.Proofs.Provenance.Hashing

/-!
# The ledger of fetches

The record of exchanges tells under which key a fetch has been made, for before it git was asked for the address of the
remote and for the way to the package.  So it tells the last result for each key (`Ledger.of`).

* `World.Accounted`: the stored cache has these results, and what it had at the start for all other keys.
* `Provenance.accounted_resolve`: that is kept by each package.
-/

namespace RosRecipes

open Action (Confined)

variable {σ : Type} {runner : Runner σ} {perPackage : Bool}

/-- What has been learnt from the exchanges so far. -/
structure Ledger where
  /-- The address of the last remote. -/
  url : String := ""
  /-- The way to the last package. -/
  subdirectory : String := ""
  /-- The last result for each key. -/
  results : Table String Prefetched := ∅

namespace Ledger

def key (perPackage : Bool) (l : Ledger) : String :=
  StoredCache.key l.url (if perPackage then some l.subdirectory else none)

/-- Notes a result, or an answer about the location of a package. -/
def note (perPackage : Bool) (l : Ledger) (x : Exchange) : Ledger :=
  match x.fetched?, x.answer with
  | some p, _ => { l with results := l.results.insert (l.key perPackage) p }
  | none, .ok output =>
    if x.command.program ≠ "git" then l
    else if x.command.arguments = ["config", "remote.origin.url"] then { l with url := Text.trimmed output.stdout }
    else if x.command.arguments = ["rev-parse", "--show-prefix"] then
      { l with subdirectory := Text.trimmed output.stdout }
    else l
  | none, .error _ => l

def of (perPackage : Bool) (exchanges : List Exchange) : Ledger := exchanges.foldl (note perPackage) {}

theorem of_concat (exchanges : List Exchange) (x : Exchange) :
    of perPackage (exchanges ++ [x]) = note perPackage (of perPackage exchanges) x := by
  rw [of, List.foldl_append]
  rfl

theorem results_note_of_some (perPackage : Bool) (l : Ledger) {x : Exchange} {p : Prefetched}
    (h : x.fetched? = some p) :
    (l.note perPackage x).results = l.results.insert (l.key perPackage) p := by
  rw [note, h]

/-- Only fetches that give something have results. -/
theorem results_note_of_none {l : Ledger} {x : Exchange} (h : x.fetched? = none) :
    (l.note perPackage x).results = l.results := by
  unfold note
  rw [h]
  cases x.answer with
  | error e => rfl
  | ok output =>
    dsimp only
    split
    · rfl
    · split
      · rfl
      · split <;> rfl

theorem results_append {exchanges new : List Exchange} (h : ∀ x ∈ new, x.fetched? = none) :
    (of perPackage (exchanges ++ new)).results = (of perPackage exchanges).results := by
  induction new generalizing exchanges with
  | nil => rw [List.append_nil]
  | cons x new ih =>
    obtain ⟨hx, hnew⟩ := List.forall_mem_cons.1 h
    rw [← List.singleton_append, ← List.append_assoc, ih hnew, of_concat, results_note_of_none hx]

end Ledger

/-! ### Locating a package -/

namespace Repository

/-- Questions that do not locate a package are not noted. -/
private theorem confines_ledger (runner : Runner σ) (perPackage : Bool) (r : Repository) (l : Ledger) :
    r.Confines runner.recorded (fun v => Ledger.of perPackage v.exchanges = l) fun _ => True where
  call arguments hother v hv := by
    refine ⟨?_, fun _ _ => trivial⟩
    dsimp only
    rw [exchanges_call, Ledger.of_concat, hv]
    have hconfig : arguments ≠ ["config", "remote.origin.url"] := fun h => hother (.inl h)
    have hprefix : arguments ≠ ["rev-parse", "--show-prefix"] := fun h => hother (.inr h)
    have hnothing : Exchange.fetched? ⟨r.question arguments, (runner.run (r.question arguments) v.tools.1 v.files).1⟩ =
        none := Exchange.fetched?_of_git rfl
    unfold Ledger.note
    rw [hnothing]
    cases (runner.run (r.question arguments) v.tools.1 v.files).1 with
    | error e => rfl
    | ok output => exact (if_neg (not_not_intro rfl)).trans ((if_neg hconfig).trans (if_neg hprefix))
  minor _ _ := trivial
  files _ _ h := h

end Repository

namespace Provenance

variable {w u : World (σ × List Exchange)} {c : Checkout}

/-- After a package has been inspected, the ledger has the key of its source. -/
private theorem key_of_inspect {r : Repository}
    (h : (inspect runner.recorded r perPackage).perform w = (.ok c, u)) :
    (Ledger.of perPackage u.exchanges).key perPackage = c.storedKey perPackage := by
  obtain ⟨url, v, hurl, h⟩ := Action.bind_ok_cases h
  obtain ⟨subdirectory, v', hsubdirectory, h⟩ := Action.bind_ok_cases h
  obtain ⟨output, hv, rfl⟩ := Repository.exchanges_of_ask (Repository.ask_of_askLine hurl)
  obtain ⟨output', hv', rfl⟩ := Repository.exchanges_of_ask hsubdirectory
  have hlocated : (Ledger.of perPackage v'.exchanges).key perPackage =
      StoredCache.key (Text.trimmed output.stdout)
        (if perPackage then some (Text.trimmed output'.stdout) else none) := by
    rw [hv', Ledger.of_concat, hv, Ledger.of_concat]
    rfl
  -- The questions after these two are about other things, so the key stays.
  have hkept := (Repository.confines_ledger runner perPackage r (Ledger.of perPackage v'.exchanges)).checkout
    (Text.trimmed output.stdout) (Text.trimmed output'.stdout) perPackage
  rw [hkept.after h rfl, hlocated]
  obtain ⟨toplevel, _, -, h⟩ := Action.bind_ok_cases h
  obtain ⟨head, _, -, h⟩ := Action.bind_ok_cases h
  obtain ⟨mergeBase, _, -, h⟩ := Action.bind_ok_cases h
  have hc : c.url = Text.trimmed output.stdout ∧ c.subdirectory = Text.trimmed output'.stdout := by
    cases perPackage <;> obtain ⟨revision, _, -, h⟩ := Action.bind_ok_cases h <;> cases h <;> exact ⟨rfl, rfl⟩
  rw [Checkout.storedKey, hc.1, hc.2]

end Provenance

/-! ### What is in the stored cache -/

/-- The stored cache has the results of the ledger, and for all other keys what it had at the start.  It is still that
cache if nothing is new in it. -/
def World.Accounted (perPackage : Bool) (start : StoredCache) (w : World (σ × List Exchange)) : Prop :=
  ∃ c, w.storedCache = some c ∧ c.path = start.path ∧
    (∀ key, c.entries.get? key = ((Ledger.of perPackage w.exchanges).results.get? key).or (start.entries.get? key)) ∧
    (c.dirty = false → c.entries = start.entries)

namespace World.Accounted

variable {start : StoredCache} {u w : World (σ × List Exchange)}

theorem of_exchanges (h : w.Accounted perPackage start) (hcache : u.storedCache = w.storedCache)
    (new : List Exchange) (hnew : u.exchanges = w.exchanges ++ new) (hnothing : ∀ x ∈ new, x.fetched? = none) :
    u.Accounted perPackage start := by
  obtain ⟨c, hc, hpath, hentries, hclean⟩ := h
  refine ⟨c, hcache.trans hc, hpath, fun key => ?_, hclean⟩
  rw [hnew, Ledger.results_append hnothing, hentries]

theorem of_asked (h : w.Accounted perPackage start) (hu : u.Asked w) : u.Accounted perPackage start := by
  obtain ⟨new, hnew, hgit⟩ := hu.exchanges
  exact h.of_exchanges hu.storedCache new hnew fun x hx => Exchange.fetched?_of_git (hgit x hx)

end World.Accounted

namespace Provenance

variable {start : StoredCache}

/-- What is fetched is stored under the key that the ledger has. -/
private theorem accounted_hash {w : World (σ × List Exchange)} {c : Checkout} (h : w.Accounted perPackage start)
    (hkey : (Ledger.of perPackage w.exchanges).key perPackage = c.storedKey perPackage) :
    ((hash runner.recorded c perPackage).perform w).2.Accounted perPackage start := by
  have hashed := hashed_hash runner.recorded c perPackage w
  generalize (hash runner.recorded c perPackage).perform w = after at hashed
  cases hashed with
  | remembered p hwhole hrun => exact h
  | stored p hrun hstored => exact h
  | failed e log hrun hstored hresult =>
    refine h.of_exchanges rfl [_] rfl (List.forall_mem_singleton.2 ?_)
    exact (Exchange.fetched?_fetchCommand c perPackage _).trans hresult
  | fetched p log hrun hstored hresult =>
    obtain ⟨cache, hc, hpath, hentries, hclean⟩ := h
    have hfetched := (Exchange.fetched?_fetchCommand c perPackage _).trans hresult
    have hresults := Ledger.results_note_of_some perPackage (Ledger.of perPackage w.exchanges) hfetched
    rw [← Ledger.of_concat, hkey] at hresults
    -- The cache and the ledger insert the same result under the same key.
    refine ⟨cache.insert (c.storedKey perPackage) p, ?_, hpath, fun key => ?_, nofun⟩
    · dsimp only
      rw [hc]
      rfl
    · refine Eq.trans ?_ (congrArg (fun t : Table String Prefetched => (t.get? key).or _) hresults).symm
      rw [StoredCache.insert, Table.get?_insert, Table.get?_insert]
      by_cases hsame : key = c.storedKey perPackage
      · rw [if_pos hsame, if_pos hsame, Option.some_or]
      · rw [if_neg hsame, if_neg hsame, hentries]

/-- Each package keeps the account. -/
theorem accounted_resolve (directory : Path) (options : Options) (h : options.perPackage = perPackage) :
    Confined (World.Accounted perPackage start) (fun _ => True) (resolve runner.recorded directory options) := by
  subst h
  refine fun w hw => ⟨?_, fun _ _ => trivial⟩
  obtain ⟨r, u, hinspect, hasked, hcases⟩ := resolve_cases runner directory options w
  cases r with
  | error e =>
    dsimp only at hcases
    rw [hcases]
    exact hw.of_asked hasked
  | ok c => exact (accounted_hash (hw.of_asked hasked) (key_of_inspect hinspect)).of_asked hcases

end Provenance

end RosRecipes
