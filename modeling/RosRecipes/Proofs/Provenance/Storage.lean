import Mathlib.Logic.Relation
import RosRecipes.Proofs.Action
import RosRecipes.Proofs.FileTree.Growth
import RosRecipes.Proofs.Json.RoundTrip
import RosRecipes.Provenance.Storage

/-!
# The stored cache and its file

What is written for a cache is read as the same entries (`StoredCache.read?_write`).  So as long as nothing new is in
the cache, its file holds its entries (`World.InStep`): loading brings that about, and it is kept by whatever may happen
to the cache (`World.InStep.operation`).

* `finished_finish` is about all ways in which a save can end.
-/

namespace RosRecipes

variable {σ : Type}

/-! ### The text of the file -/

namespace Prefetched

def json (p : Prefetched) : Json :=
  .object [(some "rev", .string (some p.revision)), (some "sha256", .string (some p.sha256))]

theorem reads_write (p : Prefetched) : Json.Reads p.write.toList p.json := by
  refine Json.reads_writeObject [⟨"rev", Json.writeString p.revision, _⟩, ⟨"sha256", Json.writeString p.sha256, _⟩] ?_
  refine List.forall_mem_cons.2 ⟨?_, List.forall_mem_singleton.2 ?_⟩
  · exact Json.reads_writeString _
  · exact Json.reads_writeString _

end Prefetched

namespace StoredCache

private theorem get?_foldl_insert (entries t : Table String Prefetched) (fields : List (String × Prefetched))
    (h : ∀ f ∈ fields, entries.get? f.1 = some f.2) (key : String) :
    (fields.foldl (fun t f => t.insert f.1 f.2) t).get? key =
      if key ∈ fields.map (·.1) then entries.get? key else t.get? key := by
  induction fields generalizing t with
  | nil => rfl
  | cons f fields ih =>
    obtain ⟨hf, hfields⟩ := List.forall_mem_cons.1 h
    rw [List.foldl_cons, ih _ hfields, Table.get?_insert]
    by_cases hkey : key = f.1
    · rw [if_pos hkey, List.map_cons, if_pos (List.mem_cons.2 (.inl hkey)), hkey, hf, ite_self]
    · simp only [List.map_cons, List.mem_cons, hkey, false_or, ↓reduceIte]

private theorem foldlM_json (fields : List (String × Prefetched)) (t : Table String Prefetched) :
    (fields.map fun f => (some f.1, f.2.json)).foldlM (fun entries (key, value) => do
        return entries.insert (← key) (← Prefetched.ofJson? value)) t =
      some (fields.foldl (fun t f => t.insert f.1 f.2) t) := by
  induction fields generalizing t with
  | nil => rfl
  | cons f fields ih =>
    rw [List.map_cons, List.foldlM_cons, List.foldl_cons, ← ih]
    rfl

/-- The entries in the order of the file. -/
private def fields (entries : Table String Prefetched) : List (String × Prefetched) :=
  (NameSet.ofList (entries.entries.map (·.1))).toList.filterMap fun key => (entries.get? key).map (key, ·)

private theorem mem_fields {entries : Table String Prefetched} {f : String × Prefetched} :
    f ∈ fields entries ↔ entries.get? f.1 = some f.2 := by
  unfold fields
  rw [List.mem_filterMap]
  constructor
  · rintro ⟨key, -, hkey⟩
    obtain ⟨p, hp, rfl⟩ := Option.map_eq_some_iff.1 hkey
    exact hp
  · intro hf
    obtain ⟨before, after, heq, -⟩ := List.lookup_eq_some_iff.1 hf
    refine ⟨f.1, NameSet.mem_ofList.2 ?_, by rw [hf]; rfl⟩
    rw [heq]
    simp

private theorem write_eq (entries : Table String Prefetched) :
    write entries = Json.writeObject (((fields entries).map fun f => (⟨f.1, f.2.write, f.2.json⟩ : Json.Field)).map
      fun f => (f.key, f.text)) := by
  unfold write fields
  rw [List.map_map, List.map_filterMap]
  simp only [Option.map_map]
  rfl

/-- What is written for a cache is read as its entries. -/
theorem read?_write (entries : Table String Prefetched) :
    ∃ t, read? (write entries) = some t ∧ ∀ key, t.get? key = entries.get? key := by
  have hreads := Json.reads_writeObject ((fields entries).map fun f => ⟨f.1, f.2.write, f.2.json⟩) (by
    intro f hf
    obtain ⟨g, -, rfl⟩ := List.mem_map.1 hf
    exact g.2.reads_write)
  rw [← write_eq, List.map_map] at hreads
  refine ⟨(fields entries).foldl (fun t f => t.insert f.1 f.2) ∅, ?_, fun key => ?_⟩
  · unfold read?
    rw [Json.read?_of_reads hreads]
    exact foldlM_json (fields entries) ∅
  · rw [get?_foldl_insert entries ∅ _ fun f hf => mem_fields.1 hf]
    split
    · rfl
    · next hkey =>
      cases hget : entries.get? key with
      | none => rfl
      | some p => exact absurd (List.mem_map.2 ⟨(key, p), mem_fields.2 hget, rfl⟩) hkey

/-! ### Loading -/

/-- The entries that are loaded from a file. -/
def entriesIn (t : FileTree) (path : Path) : Table String Prefetched :=
  match t.readText path with
  | .ok content => (read? content).getD ∅
  | .error _ => ∅

/-- To load a cache does not fail, and changes no more than the remarks. -/
theorem perform_load (path : Path) (w : World σ) :
    ∃ log, (load path).perform w = (.ok { path, entries := entriesIn w.files path }, { w with log }) := by
  unfold load entriesIn
  rw [Action.perform_bind_ok (x := w) rfl, Action.perform_get]
  cases w.files.readText path with
  | error fault => exact ⟨_, rfl⟩
  | ok content =>
    dsimp only
    cases read? content with
    | none => exact ⟨_, rfl⟩
    | some entries => exact ⟨_, rfl⟩

theorem entriesIn_of_readText {t u : FileTree} {path : Path} (h : t.readText path = u.readText path) :
    entriesIn t path = entriesIn u path := by
  rw [entriesIn, entriesIn, h]

/-- A cache with these entries is loaded from the file. -/
def Loads (path : Path) (entries : String → Option Prefetched) (w : World σ) : Prop :=
  ∃ c, ((load path).perform w).1 = .ok c ∧ c.path = path ∧ ∀ key, c.entries.get? key = entries key

theorem loads_iff {path : Path} {entries : String → Option Prefetched} {w : World σ} :
    Loads path entries w ↔ ∀ key, (entriesIn w.files path).get? key = entries key := by
  obtain ⟨log, hload⟩ := perform_load path w
  constructor
  · rintro ⟨c, hc, -, hentries⟩
    cases (congrArg Prod.fst hload).symm.trans hc
    exact hentries
  · exact fun h => ⟨_, congrArg Prod.fst hload, rfl, h⟩

theorem get?_entriesIn_of_write {t u : FileTree} {path : Path} {entries : Table String Prefetched}
    (h : t.write path (write entries).toUTF8 = .ok u) (key : String) :
    (entriesIn u path).get? key = entries.get? key := by
  have htext : u.readText path = .ok (write entries) := by
    obtain ⟨executable, hfile⟩ := (FileTree.wrote_of_write h).file
    have hread : u.read path = .ok (write entries).toUTF8 := by
      unfold FileTree.read
      rw [hfile]
      rfl
    have hdecode : String.fromUTF8? (write entries).toUTF8 = some (write entries) :=
      dif_pos (write entries).isValidUTF8
    unfold FileTree.readText
    rw [hread]
    simp only [bind, Except.bind]
    rw [hdecode]
  obtain ⟨t', hread, hget⟩ := read?_write entries
  rw [entriesIn, htext]
  dsimp only
  rw [hread, Option.getD_some, hget]

end StoredCache

/-! ### Saving -/

private def overwrite (c : StoredCache) : Action σ StoredCache := do
  Action.changeFiles (.write c.path) (·.write c.path (StoredCache.write c.entries).toUTF8)
  return { c with dirty := false }

/-- The ways in which a cache with something new in it is saved: that fails, or its text is written into its file. -/
private inductive Saved (c : StoredCache) (w : World σ) : Except Error StoredCache × World σ → Prop
  | failed (e : Error) (files : FileTree) : Saved c w (.error e, { w with files })
  | written (t files : FileTree) (h : t.write c.path (StoredCache.write c.entries).toUTF8 = .ok files) :
      Saved c w (.ok { c with dirty := false }, { w with files })

private theorem saved_overwrite (c : StoredCache) (w : World σ) (t : FileTree) :
    Saved c w ((overwrite c).perform { w with files := t }) := by
  unfold overwrite
  rw [Action.perform_bind, Action.perform_changeFiles]
  dsimp only
  cases h : t.write c.path (StoredCache.write c.entries).toUTF8 with
  | error fault => exact .failed _ t
  | ok files => exact .written t files h

private theorem saved_save {c : StoredCache} (hdirty : c.dirty = true) (w : World σ) :
    Saved c w (c.save.perform w) := by
  unfold StoredCache.save
  rw [hdirty]
  cases c.path.parent? with
  | none => exact saved_overwrite c w w.files
  | some above =>
    change Saved c w ((Action.changeFiles (.write above) (·.makeDirectories above) >>= fun _ => overwrite c).perform w)
    rw [Action.perform_bind, Action.perform_changeFiles]
    cases w.files.makeDirectories above with
    | error fault => exact .failed _ w.files
    | ok t => exact saved_overwrite c w t

/-- The ways in which a run can end, with the world that each of them leaves. -/
inductive Finished (w : World σ) : Except Error PUnit × World σ → Prop
  | clean (h : ∀ c, w.storedCache = some c → c.dirty = false) : Finished w (.ok ⟨⟩, w)
  | failed (c : StoredCache) (e : Error) (files : FileTree) (hcache : w.storedCache = some c)
      (hdirty : c.dirty = true) : Finished w (.error e, { w with files })
  | saved (c : StoredCache) (files : FileTree) (hcache : w.storedCache = some c) (hdirty : c.dirty = true)
      (hfile : ∀ key, (StoredCache.entriesIn files c.path).get? key = c.entries.get? key) :
      Finished w (.ok ⟨⟩, { w with files, storedCache := some { c with dirty := false } })

/-- There is no other way. -/
theorem finished_finish (w : World σ) : Finished w (Action.finish.perform w) := by
  unfold Action.finish
  rw [Action.perform_bind_ok (x := w) rfl, Action.perform_get]
  cases hcache : w.storedCache with
  | none => exact .clean (by simp [hcache])
  | some c =>
    dsimp only
    cases hdirty : c.dirty with
    | false =>
      have hsave : (c.save : Action σ StoredCache).perform w = (.ok c, w) := by
        unfold StoredCache.save
        rw [hdirty]
        rfl
      have hsame : { w with storedCache := some c } = w := by rw [← hcache]
      rw [Action.perform_bind_ok (congrArg Prod.fst hsave), hsave]
      change Finished w (.ok ⟨⟩, { w with storedCache := some c })
      rw [hsame]
      exact .clean fun c' hc' => by rw [hcache] at hc'; cases hc'; exact hdirty
    | true =>
      have hsaved := saved_save hdirty w
      rcases hsave : c.save.perform w with ⟨r, w'⟩
      rw [hsave] at hsaved
      cases hsaved with
      | failed e files =>
        rw [Action.perform_bind_error (congrArg Prod.fst hsave), hsave]
        exact .failed c e files hcache hdirty
      | written t files hwrite =>
        rw [Action.perform_bind_ok (congrArg Prod.fst hsave), hsave]
        exact .saved c files hcache hdirty (StoredCache.get?_entriesIn_of_write hwrite)

/-! ### Operations -/

/-- If there is nothing new in the cache, its file holds its entries. -/
def World.InStep (w : World σ) : Prop :=
  ∀ c, w.storedCache = some c → c.dirty = false →
    ∀ key, (StoredCache.entriesIn w.files c.path).get? key = c.entries.get? key

/-- What may happen to a cache, and around it. -/
inductive StoredCache.Operation : World σ → World σ → Prop
  /-- A cache is loaded, whatever is in its file. -/
  | load (path : Path) {w w' : World σ} {c : StoredCache} (h : (load path).perform w = (.ok c, w')) :
      Operation w { w' with storedCache := some c }
  | insert (key : String) (p : Prefetched) (w : World σ) :
      Operation w { w with storedCache := w.storedCache.map (·.insert key p) }
  /-- The cache is saved, or that fails before anything is written. -/
  | save (w : World σ) : Operation w (Action.finish.perform w).2
  /-- A save fails after it has left anything in the files. -/
  | interrupted {w w' : World σ} {c : StoredCache} (hcache : w.storedCache = some c) (hdirty : c.dirty = true)
      (hsame : w'.storedCache = w.storedCache) : Operation w w'
  /-- Anything else, as long as nobody touches the file of the cache. -/
  | elsewhere {w w' : World σ} (hsame : w'.storedCache = w.storedCache)
      (hfile : ∀ c, w.storedCache = some c → w'.files.readText c.path = w.files.readText c.path) : Operation w w'

namespace World.InStep

variable {w w' : World σ}

theorem finish (h : w.InStep) : (Action.finish.perform w).2.InStep := by
  have hfinished := finished_finish w
  generalize Action.finish.perform w = after at hfinished
  cases hfinished with
  | clean _ => exact h
  | failed c e files hcache hdirty =>
    intro c' hc' hclean
    cases hcache.symm.trans hc'
    rw [hdirty] at hclean
    cases hclean
  | saved c files hcache hdirty hfile =>
    intro c' hc' _
    cases hc'
    exact hfile

theorem operation (h : w.InStep) (hop : StoredCache.Operation w w') : w'.InStep := by
  cases hop with
  | load path hload =>
    obtain ⟨log, hperform⟩ := StoredCache.perform_load path w
    cases hperform.symm.trans hload
    intro c hc _
    cases hc
    exact fun _ => rfl
  | insert key p =>
    intro c hc hclean
    obtain ⟨c', -, rfl⟩ := Option.map_eq_some_iff.1 hc
    cases hclean
  | save => exact h.finish
  | interrupted hcache hdirty hsame =>
    intro c hc hclean
    cases hcache.symm.trans (hsame.symm.trans hc)
    rw [hdirty] at hclean
    cases hclean
  | elsewhere hsame hfile =>
    intro c hc hclean key
    rw [hsame] at hc
    rw [StoredCache.entriesIn_of_readText (hfile c hc), h c hc hclean]

end World.InStep

/-- Whatever has happened to a cache, one operation after the other. -/
theorem inStep_of_operations {w w' : World σ} (hnone : w.storedCache = none)
    (hops : Relation.ReflTransGen StoredCache.Operation w w') : w'.InStep := by
  induction hops with
  | refl =>
    intro c hc
    rw [hnone] at hc
    cases hc
  | tail _ hop ih => exact ih.operation hop

theorem storedCache_of_failed_finish {w : World σ} {e : Error} (h : (Action.finish.perform w).1 = .error e) :
    (Action.finish.perform w).2.storedCache = w.storedCache := by
  have hfinished := finished_finish w
  generalize Action.finish.perform w = after at h hfinished
  cases hfinished with
  | clean _ => cases h
  | failed c e' files hcache hdirty => rfl
  | saved c files hcache hdirty hfile => cases h

/-- After a save that succeeds, there is nothing new in the cache, and the entries are those from before. -/
theorem storedCache_of_finish {w : World σ} {c : StoredCache} (hc : w.storedCache = some c)
    (h : (Action.finish.perform w).1 = .ok ⟨⟩) :
    (Action.finish.perform w).2.storedCache = some { c with dirty := false } := by
  have hfinished := finished_finish w
  generalize Action.finish.perform w = after at h hfinished
  cases hfinished with
  | clean hclean => 
    rw [hc, ← hclean c hc]
  | failed c' e' files hcache hdirty => cases h
  | saved c' files hcache hdirty hfile =>
    cases hcache.symm.trans hc
    rfl

end RosRecipes
