import RosRecipes.Proofs.Rosdep.Requests

/-!
# Lookups for several systems

The tool is asked about a name on a system, but what it answers is remembered for the name alone.  So a name is answered
as it was first answered, for whatever system that was (`lookups_follow_first_answer`); that is the answer for its own
system as long as each name is looked up for one system only, but not in general (`lookups_mix_systems`).
-/

namespace RosRecipes.Rosdep

variable {σ : Type} {runner : Runner σ} {distribution name : String} {w : World σ}

/-- What the tool answers about a name on a system as long as nothing is remembered. -/
def freshLookup (runner : Runner σ) (distribution : String) (w : World σ) (name system : String) :
    Except Error Lookup :=
  (((Database.tool distribution).lookup runner name system).perform { w with answers := ∅ }).1

/-- The first answer to a name among lookups of names for systems. -/
def firstAnswer? (fresh : String → String → Except Error Lookup) (lookups : List (String × String)) (name : String) :
    Option Lookup :=
  lookups.findSome? fun asked => if asked.1 = name then (fresh name asked.2).toOption else none

/-- What a name is answered after other lookups: the first answer to that name, or else its own. -/
def answerAfter (fresh : String → String → Except Error Lookup) (before : List (String × String))
    (name system : String) : Except Error Lookup :=
  match firstAnswer? fresh before name with
  | some lookup => .ok lookup
  | none => fresh name system

/-- Looks names up for systems, one after the other, whatever becomes of them. -/
def Database.lookupAll (db : Database) (runner : Runner σ) (lookups : List (String × String)) :
    Action σ (List (Except Error Lookup)) :=
  lookups.mapM fun asked => Action.attempt (db.lookup runner asked.1 asked.2)

theorem firstAnswer?_append (fresh : String → String → Except Error Lookup) (before : List (String × String))
    (asked : String × String) :
    firstAnswer? fresh (before ++ [asked]) name =
      (firstAnswer? fresh before name).or (if asked.1 = name then (fresh name asked.2).toOption else none) := by
  rw [firstAnswer?, List.findSome?_append, List.findSome?_singleton, firstAnswer?]

/-- Where a name has been looked up for one system only, its answer is that for this system. -/
theorem answerAfter_eq_of_forall {fresh : String → String → Except Error Lookup} {before : List (String × String)}
    {system : String} (h : ∀ asked ∈ before, asked.1 = name → asked.2 = system) :
    answerAfter fresh before name system = fresh name system := by
  unfold answerAfter
  cases hfirst : firstAnswer? fresh before name with
  | none => rfl
  | some lookup =>
    obtain ⟨asked, hasked, hanswer⟩ := List.exists_of_findSome?_eq_some hfirst
    split at hanswer
    · next hname =>
      rw [h asked hasked hname] at hanswer
      cases hfresh : fresh name system with
      | error e =>
        rw [hfresh] at hanswer
        cases hanswer
      | ok found =>
        rw [hfresh] at hanswer
        cases hanswer
        rfl
    · cases hanswer

/-- The tool answers as when it was asked for the first time. -/
private theorem freshLookup_eq (hrun : ∀ c s t s' t', (runner.run c s t).1 = (runner.run c s' t').1) (u w : World σ)
    (name system : String) :
    freshLookup runner distribution u name system =
      lookupOfAnswer ((Action.call runner (question distribution name system)).perform w).1 := by
  unfold freshLookup
  rw [Database.perform_lookup_tool, Action.perform_call, Action.perform_call, hrun _ w.tools w.files u.tools u.files]
  dsimp only [Table.get?_empty]
  cases lookupOfAnswer (runner.run (question distribution name system) u.tools u.files).1 <;> rfl

/-- What is remembered are the first answers, also after one lookup more. -/
private theorem perform_lookup_after (hrun : ∀ c s t s' t', (runner.run c s t).1 = (runner.run c s' t').1)
    {u w : World σ} {before : List (String × String)}
    (hmemory : ∀ name, w.answers.get? name = firstAnswer? (freshLookup runner distribution u) before name)
    (name system : String) :
    ∃ w', ((Database.tool distribution).lookup runner name system).perform w =
        (answerAfter (freshLookup runner distribution u) before name system, w') ∧
      ∀ other, w'.answers.get? other =
        firstAnswer? (freshLookup runner distribution u) (before ++ [(name, system)]) other := by
  unfold answerAfter
  rw [Database.perform_lookup_tool, hmemory name]
  cases hfirst : firstAnswer? (freshLookup runner distribution u) before name with
  | some lookup =>
    refine ⟨w, rfl, fun other => ?_⟩
    rw [firstAnswer?_append, hmemory other]
    split
    · next hname =>
      obtain rfl : name = other := hname
      rw [hfirst, Option.some_or]
    · rw [Option.or_none]
  | none =>
    dsimp only
    rw [← freshLookup_eq hrun u w]
    have hanswers : ((Action.call runner (question distribution name system)).perform w).2.answers = w.answers := by
      rw [Action.perform_call]
    cases hfresh : freshLookup runner distribution u name system with
    | error e =>
      refine ⟨_, rfl, fun other => ?_⟩
      rw [hanswers, hmemory other, firstAnswer?_append]
      split
      · next hname =>
        obtain rfl : name = other := hname
        rw [hfresh, Except.toOption, Option.or_none]
      · rw [Option.or_none]
    | ok lookup =>
      refine ⟨_, rfl, fun other => ?_⟩
      dsimp only
      rw [hanswers, Table.get?_insert, firstAnswer?_append, hmemory other]
      by_cases hname : other = name
      · rw [if_pos hname, if_pos hname.symm, hname, hfirst, hfresh]
        rfl
      · rw [if_neg hname, if_neg (Ne.symm hname), Option.or_none]

/-- Each lookup is answered after those before it. -/
private theorem lookupAll_after (hrun : ∀ c s t s' t', (runner.run c s t).1 = (runner.run c s' t').1) {u : World σ}
    (lookups : List (String × String)) {w : World σ} {seen : List (String × String)}
    (hmemory : ∀ name, w.answers.get? name = firstAnswer? (freshLookup runner distribution u) seen name) :
    ∃ results, (((Database.tool distribution).lookupAll runner lookups).perform w).1 = .ok results ∧
      results.length = lookups.length ∧
      ∀ before name system after, lookups = before ++ (name, system) :: after →
        results[before.length]? =
          some (answerAfter (freshLookup runner distribution u) (seen ++ before) name system) := by
  induction lookups generalizing w seen with
  | nil => exact ⟨[], rfl, rfl, fun before _ _ _ h => by simp at h⟩
  | cons asked lookups ih =>
    obtain ⟨first, system⟩ := asked
    obtain ⟨w', hfirst, hmemory'⟩ := perform_lookup_after hrun hmemory first system
    obtain ⟨results, hrest, hlength, hresults⟩ := ih hmemory'
    refine ⟨answerAfter (freshLookup runner distribution u) seen first system :: results, ?_, by simp [hlength], ?_⟩
    · unfold Database.lookupAll at hrest ⊢
      rw [List.mapM_cons, Action.perform_bind, Action.perform_attempt, hfirst]
      dsimp only
      rw [Action.perform_bind_ok hrest]
      rfl
    · intro before name system' after hsplit
      cases before with
      | nil =>
        cases hsplit
        rw [List.append_nil]
        rfl
      | cons b before =>
        cases hsplit
        rw [List.length_cons, List.getElem?_cons_succ, hresults before name system' after rfl, List.append_assoc]
        rfl

/-- If the answers of the tool depend on the question only, each lookup gives the first answer to its name among the
lookups before, whatever their system was, and what the tool answers afresh if there is none.  So all lookups are as if
they were the first, as long as no name is looked up for two systems. -/
theorem lookups_follow_first_answer (hrun : ∀ c s t s' t', (runner.run c s t).1 = (runner.run c s' t').1)
    (distribution : String) (lookups : List (String × String)) (w : World σ) :
    ∃ results,
      (((Database.tool distribution).lookupAll runner lookups).perform { w with answers := ∅ }).1 = .ok results ∧
      results.length = lookups.length ∧
      (∀ before name system after, lookups = before ++ (name, system) :: after →
        results[before.length]? = some (answerAfter (freshLookup runner distribution w) before name system)) ∧
      ((∀ x ∈ lookups, ∀ y ∈ lookups, x.1 = y.1 → x.2 = y.2) →
        results = lookups.map fun asked => freshLookup runner distribution w asked.1 asked.2) := by
  have hstart : ∀ name, ({ w with answers := ∅ } : World σ).answers.get? name =
      firstAnswer? (freshLookup runner distribution w) [] name := fun _ => rfl
  obtain ⟨results, hperform, hlength, hresults⟩ := lookupAll_after hrun lookups hstart
  refine ⟨results, hperform, hlength, hresults, fun hone => ?_⟩
  refine List.ext_getElem? fun i => ?_
  rcases Nat.lt_or_ge i lookups.length with hi | hi
  · have hsplit : lookups = lookups.take i ++ lookups[i] :: lookups.drop (i + 1) := by
      rw [← List.drop_eq_getElem_cons hi, List.take_append_drop]
    have hanswer := hresults _ lookups[i].1 lookups[i].2 _ hsplit
    rw [List.length_take_of_le (Nat.le_of_lt hi)] at hanswer
    rw [hanswer, List.getElem?_map, List.getElem?_eq_getElem hi, Option.map_some, List.nil_append]
    refine congrArg some (answerAfter_eq_of_forall fun asked hasked hname => ?_)
    exact hone asked (List.mem_of_mem_take hasked) _ (List.getElem_mem hi) hname
  · rw [List.getElem?_eq_none (by omega), List.getElem?_eq_none (by simpa using hi)]

/-- A tool that names packages by the system: `libfoo` on the target system, and `libfoo-dev` elsewhere. -/
def twoSystems : Runner Unit where
  run c s t :=
    (.ok { stdout := if c.arguments.contains ("--os=" ++ targetSystem ++ ":_") then "libfoo" else "libfoo-dev" }, s, t)

theorem steady_twoSystems (c : Command) (s : Unit) (t : FileTree) (s' : Unit) (t' : FileTree) :
    (twoSystems.run c s t).1 = (twoSystems.run c s' t').1 := rfl

/-- A name that is looked up for one system, between lookups of another name for a system of its own. -/
theorem lookups_follow_first_answer_apart :
    let w : World Unit := { tools := (), files := ⟨∅, []⟩ }
    let lookups := [("foo", "ubuntu"), ("bar", targetSystem), ("foo", "ubuntu")]
    (∀ x ∈ lookups, ∀ y ∈ lookups, x.1 = y.1 → x.2 = y.2) ∧
    (((Database.tool "humble").lookupAll twoSystems lookups).perform { w with answers := ∅ }).1 =
      .ok (lookups.map fun asked => freshLookup twoSystems "humble" w asked.1 asked.2) := by
  intro w lookups
  have hone : ∀ x ∈ lookups, ∀ y ∈ lookups, x.1 = y.1 → x.2 = y.2 := by decide
  obtain ⟨results, hperform, -, -, hfresh⟩ :=
    lookups_follow_first_answer steady_twoSystems "humble" lookups w
  exact ⟨hone, hperform.trans (congrArg Except.ok (hfresh hone))⟩

/-- A name that has been looked up for one system is answered for another one as it was for the first. -/
theorem lookups_mix_systems :
    let w : World Unit := { tools := (), files := ⟨∅, []⟩ }
    let lookups := [("foo", targetSystem), ("foo", "ubuntu")]
    (((Database.tool "humble").lookupAll twoSystems lookups).perform { w with answers := ∅ }).1 =
        .ok [.ok (.found (.ofList ["libfoo"])), .ok (.found (.ofList ["libfoo"]))] ∧
      (lookups.map fun asked => freshLookup twoSystems "humble" w asked.1 asked.2) =
        [.ok (.found (.ofList ["libfoo"])), .ok (.found (.ofList ["libfoo-dev"]))] ∧
      NameSet.ofList ["libfoo"] ≠ NameSet.ofList ["libfoo-dev"] :=
  ⟨rfl, rfl, by decide⟩

end RosRecipes.Rosdep
