import RosRecipes.Rosdep.Rules

/-!
# Rules that name alternatives

A mapping offers several rules, for instance one for each version of the system.  Looking through all of them in order
gives the first list of packages that there is (`firstPackages?`).  A lookup takes the first candidate only, on each
level, so a candidate without packages hides those that follow it (`Hides`).

* A name is unsatisfiable just if no candidate has packages, or those of a later candidate are hidden
  (`unsatisfiable_iff_hidden`); what is found is the first list of packages.
-/

namespace RosRecipes.Rosdep

open Yaml (Value)

variable {entries : List (Value × Value)} {rule : Value} {packages : NameSet}

/-- The rules that a mapping offers, in the order in which they count: the one under `packages` alone if there is one,
else the one under `*` before all others. -/
def candidates (entries : List (Value × Value)) : List Value :=
  match valueUnder? "packages" entries with
  | some rule => [rule]
  | none => (valueUnder? "*" entries).toList ++ entries.map (·.2)

theorem mem_of_mem_candidates (h : rule ∈ candidates entries) : ∃ k, (k, rule) ∈ entries := by
  unfold candidates at h
  split at h
  · next found hfound =>
    obtain rfl := List.mem_singleton.1 h
    exact mem_of_valueUnder? hfound
  · rcases List.mem_append.1 h with h | h
    · exact mem_of_valueUnder? (Option.mem_toList.1 h)
    · obtain ⟨⟨k, v⟩, hentry, rfl⟩ := List.mem_map.1 h
      exact ⟨k, hentry⟩

/-- A lookup takes the first candidate. -/
theorem chosen?_eq_head? (entries : List (Value × Value)) : chosen? entries = (candidates entries).head? := by
  unfold chosen? candidates
  cases valueUnder? "packages" entries with
  | some rule => rfl
  | none =>
    cases valueUnder? "*" entries with
    | some rule => rfl
    | none =>
      rw [Option.none_or, Option.none_or, Option.toList_none, List.nil_append, List.head?_map]

/-- The first list of packages that a rule offers: the texts of a list, the words of a text, and in a mapping what the
first candidate offers that offers a list at all. -/
def firstPackages? (rule : Value) : Option NameSet :=
  match rule with
  | .sequence items => some (.ofList (items.filterMap Value.text?))
  | .text s => some (.ofList ((Text.words s.toList).map .ofList))
  | .mapping entries => (candidates entries).attach.findSome? fun ⟨candidate, _⟩ => firstPackages? candidate
  | _ => none
termination_by sizeOf rule
decreasing_by
  obtain ⟨k, hk⟩ := mem_of_mem_candidates ‹candidate ∈ candidates entries›
  have := List.sizeOf_lt_of_mem hk
  simp only [Prod.mk.sizeOf_spec] at this
  simp only [Value.mapping.sizeOf_spec]
  omega

theorem firstPackages?_mapping (entries : List (Value × Value)) :
    firstPackages? (.mapping entries) = (candidates entries).findSome? firstPackages? := by
  have hall : ∀ rules : List { rule // rule ∈ candidates entries },
      (rules.findSome? fun ⟨rule, _⟩ => firstPackages? rule) = rules.unattach.findSome? firstPackages? := fun rules =>
    List.findSome?_subtype fun _ _ => rfl
  rw [firstPackages?, hall, List.unattach_attach]

theorem packages?_mapping (entries : List (Value × Value)) :
    packages? (.mapping entries) = (candidates entries).head?.bind packages? := by
  rw [packages?, ← chosen?_eq_head?]
  split <;> simp [*]

/-- On the way through the first candidates, one offers no list of packages while a later one beside it does. -/
inductive Hides : Value → Prop where
  | here {entries : List (Value × Value)} {first : Value} {later : List Value}
    (hfirst : candidates entries = first :: later) (hnone : firstPackages? first = none)
    (hlater : (later.findSome? firstPackages?).isSome) : Hides (.mapping entries)
  | inside {entries : List (Value × Value)} {first : Value} {later : List Value}
    (hfirst : candidates entries = first :: later) (hhides : Hides first) : Hides (.mapping entries)

theorem hides_mapping {first : Value} {later : List Value} (hfirst : candidates entries = first :: later) :
    Hides (.mapping entries) ↔
      (firstPackages? first = none ∧ (later.findSome? firstPackages?).isSome) ∨ Hides first := by
  constructor
  · rintro (⟨hfirst', hnone, hlater⟩ | ⟨hfirst', hhides⟩)
    · obtain ⟨rfl, rfl⟩ := List.cons.inj (hfirst.symm.trans hfirst')
      exact .inl ⟨hnone, hlater⟩
    · obtain ⟨rfl, rfl⟩ := List.cons.inj (hfirst.symm.trans hfirst')
      exact .inr hhides
  · rintro (⟨hnone, hlater⟩ | hhides)
    · exact .here hfirst hnone hlater
    · exact .inside hfirst hhides

/-- What the first candidates lead to is the first list of packages, unless they hide it. -/
theorem packages?_eq_some_iff (rule : Value) (packages : NameSet) :
    packages? rule = some packages ↔ firstPackages? rule = some packages ∧ ¬ Hides rule := by
  induction hsize : sizeOf rule using Nat.strongRecOn generalizing rule with
  | ind n ih =>
  subst hsize
  cases rule with
  | sequence items =>
    have hnot : ¬ Hides (.sequence items) := by
      intro h
      cases h
    rw [packages?, firstPackages?, and_iff_left hnot]
  | text s =>
    have hnot : ¬ Hides (.text s) := by
      intro h
      cases h
    rw [packages?, firstPackages?, and_iff_left hnot]
  | mapping entries =>
    rw [packages?_mapping, firstPackages?_mapping]
    cases hfirst : candidates entries with
    | nil => simp
    | cons first later =>
      have hsmaller : sizeOf first < sizeOf (Value.mapping entries) := by
        obtain ⟨k, hk⟩ := mem_of_mem_candidates (hfirst ▸ List.mem_cons_self : first ∈ candidates entries)
        have hlt := List.sizeOf_lt_of_mem hk
        rw [Prod.mk.sizeOf_spec] at hlt
        rw [Value.mapping.sizeOf_spec]
        exact Nat.lt_of_lt_of_le (Nat.lt_of_le_of_lt (Nat.le_add_left ..) hlt) (Nat.le_add_left ..)
      rw [List.head?_cons, Option.bind_some, ih _ hsmaller first rfl, hides_mapping hfirst, List.findSome?_cons]
      cases hpackages : firstPackages? first with
      | some found => simp
      | none =>
        -- The first candidate leads to nothing, so there is only something to find if it is hidden.
        constructor
        · intro h
          cases h.1
        · rintro ⟨hlater, hnot⟩
          exact absurd (.inl ⟨rfl, Option.isSome_iff_exists.2 ⟨packages, hlater⟩⟩) hnot
  | null => rw [packages?, firstPackages?] <;> simp
  | bool b => rw [packages?, firstPackages?] <;> simp
  | number n => rw [packages?, firstPackages?] <;> simp
  | tagged tag value => rw [packages?, firstPackages?] <;> simp

namespace Rules

/-- A name with an entry is unsatisfiable just if the rule for the system, when there is one, offers no list of packages
or hides the first one that it offers; otherwise that one is found. -/
theorem unsatisfiable_iff_hidden {rules : Rules} {name : String} {entry : Value} (hentry : rules.get? name = some entry)
    (system : String) :
    (rules.lookup name system = .unsatisfiable ↔
      ∀ rule, entry.get? system = some rule → firstPackages? rule = none ∨ Hides rule) ∧
    ∀ packages, rules.lookup name system = .found packages ↔
      ∃ rule, entry.get? system = some rule ∧ firstPackages? rule = some packages ∧ ¬ Hides rule := by
  unfold lookup lookupEntry
  rw [hentry]
  dsimp only
  cases hrule : entry.get? system with
  | none => exact ⟨⟨fun _ _ h => (nomatch h), fun _ => rfl⟩, fun packages => ⟨nofun, fun ⟨_, h, _⟩ => nomatch h⟩⟩
  | some rule =>
    simp only [Option.bind_some, Option.some.injEq, forall_eq', exists_eq_left', ← packages?_eq_some_iff]
    cases hpackages : packages? rule with
    | none =>
      refine ⟨⟨fun _ => ?_, fun _ => rfl⟩, fun packages => ⟨nofun, nofun⟩⟩
      by_cases hhides : Hides rule
      · exact .inr hhides
      · refine .inl (Option.eq_none_iff_forall_ne_some.2 fun packages hfirst => ?_)
        rw [(packages?_eq_some_iff rule packages).2 ⟨hfirst, hhides⟩] at hpackages
        cases hpackages
    | some found =>
      obtain ⟨hfirst, hhides⟩ := (packages?_eq_some_iff rule found).1 hpackages
      refine ⟨⟨nofun, fun h => ?_⟩, fun packages => by simp⟩
      rw [hfirst] at h
      exact absurd (h.resolve_left nofun) hhides

/-- A rule for each version: the first one lists a package, so it counts, and the missing one behind it hides
nothing. -/
theorem first_version_found :
    let entry : Value :=
      .mapping [(.text "nixos", .mapping [(.text "22.05", .sequence [.text "libfoo"]), (.text "23.05", .null)])]
    let rules : Rules := ⟨[("foo", entry)]⟩
    rules.get? "foo" = some entry ∧ rules.lookup "foo" targetSystem = .found (.ofList ["libfoo"]) := by
  intro entry rules
  have hentry : rules.get? "foo" = some entry := rfl
  refine ⟨hentry, ((unsatisfiable_iff_hidden hentry targetSystem).2 _).2 ⟨_, rfl, ?_, ?_⟩⟩
  · rw [firstPackages?_mapping]
    show [Value.sequence [.text "libfoo"], .null].findSome? firstPackages? = _
    rw [List.findSome?_cons, firstPackages?]
    rfl
  · rw [hides_mapping rfl, firstPackages?]
    rintro (⟨hnone, -⟩ | hhides)
    · cases hnone
    · cases hhides

/-- A rule for each version.  The first one is missing, and hides the packages of the second one. -/
theorem missing_version_hides :
    let rule : Value := .mapping [(.text "22.05", .null), (.text "23.05", .sequence [.text "libfoo"])]
    let rules : Rules := ⟨[("foo", .mapping [(.text "nixos", rule)])]⟩
    rules.lookup "foo" targetSystem = .unsatisfiable ∧ firstPackages? rule = some (.ofList ["libfoo"]) := by
  intro rule rules
  have hfirst : firstPackages? rule = some (.ofList ["libfoo"]) := by
    rw [firstPackages?_mapping]
    show [Value.null, .sequence [.text "libfoo"]].findSome? firstPackages? = _
    simp [firstPackages?, Value.text?]
  have hpackages : packages? rule = none := by
    rw [packages?_mapping]
    show packages? .null = none
    simp [packages?]
  have hentry : rules.get? "foo" = some (.mapping [(.text "nixos", rule)]) := rfl
  have hrule : (Value.mapping [(.text "nixos", rule)]).get? targetSystem = some rule := rfl
  refine ⟨?_, hfirst⟩
  unfold lookup lookupEntry
  rw [hentry]
  dsimp only
  rw [hrule, Option.bind_some, hpackages]

end Rules

end RosRecipes.Rosdep
