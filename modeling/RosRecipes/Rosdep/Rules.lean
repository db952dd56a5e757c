import RosRecipes.NameSet
import RosRecipes.Naming
import RosRecipes.Text.Blank
import RosRecipes.Yaml.Value

/-!
# Lookups, and rules in YAML

A database of system dependencies answers a name with the packages that it stands for on the target system.
A name that it does not know is taken for a package of the same set.

A document of rules maps names to entries, and an entry maps systems to rules.  A rule is a list of packages,
a text of packages between blanks, or a mapping: its entry `packages` is the rule, else the one under `*`, else
its first one.

* `packages?` gives the packages of a rule, `Rules.lookup` answers a name,
* `Rules.ofDocuments` puts documents together: the first document that has a name decides.
-/

namespace RosRecipes.Rosdep

/-- The target system. -/
def targetSystem : String := "nixos"

inductive Lookup where
  | found (packages : NameSet)
  | unknown
  /-- The name is known, but there is no rule for the system. -/
  | unsatisfiable
deriving DecidableEq

/-- The packages that a name stands for, after its lookup; there are none if it cannot be satisfied. -/
def Lookup.packages? (name : String) : Lookup → Option NameSet
  | .found packages => some packages
  | .unknown => some (.ofList [attributeName name])
  | .unsatisfiable => none

/-! ### Rules -/

open Yaml (Value)

/-- The value under a key that is a text. -/
def valueUnder? (key : String) (entries : List (Value × Value)) : Option Value :=
  (entries.find? fun (k, _) => match k with | .text s => s == key | _ => false).map (·.2)

/-- The rule that a mapping stands for. -/
def chosen? (entries : List (Value × Value)) : Option Value :=
  (valueUnder? "packages" entries).or ((valueUnder? "*" entries).or (entries.head?.map (·.2)))

theorem mem_of_valueUnder? {key : String} {entries : List (Value × Value)} {v : Value}
    (h : valueUnder? key entries = some v) : ∃ k, (k, v) ∈ entries := by
  obtain ⟨⟨k, w⟩, hf, rfl⟩ := Option.map_eq_some_iff.1 h
  exact ⟨k, List.mem_of_find?_eq_some hf⟩

/-- The rule that a mapping stands for is one of its values. -/
theorem mem_of_chosen? {entries : List (Value × Value)} {v : Value} (h : chosen? entries = some v) :
    ∃ k, (k, v) ∈ entries := by
  unfold chosen? at h
  rcases Option.or_eq_some_iff.1 h with h | ⟨_, h⟩
  · exact mem_of_valueUnder? h
  rcases Option.or_eq_some_iff.1 h with h | ⟨_, h⟩
  · exact mem_of_valueUnder? h
  · obtain ⟨⟨k, w⟩, hk, rfl⟩ := Option.map_eq_some_iff.1 h
    exact ⟨k, List.mem_of_mem_head? hk⟩

/-- The packages of a rule. -/
def packages? (rule : Value) : Option NameSet :=
  match rule with
  | .sequence items => some (.ofList (items.filterMap Value.text?))
  | .text s => some (.ofList ((Text.words s.toList).map .ofList))
  | .mapping entries =>
    match _h : chosen? entries with
    | some rule => packages? rule
    | none => none
  | _ => none
termination_by sizeOf rule
decreasing_by
  obtain ⟨k, hk⟩ := mem_of_chosen? _h
  have := List.sizeOf_lt_of_mem hk
  simp only [Prod.mk.sizeOf_spec] at this
  simp only [Value.mapping.sizeOf_spec]
  omega

/-- The rules of all names. -/
abbrev Rules := Table String Value

namespace Rules

/-- What an entry says for a system. -/
def lookupEntry (system : String) (entry : Value) : Lookup :=
  match (entry.get? system).bind packages? with
  | some packages => .found packages
  | none => .unsatisfiable

def lookup (rules : Rules) (name system : String) : Lookup :=
  match rules.get? name with
  | none => .unknown
  | some entry => lookupEntry system entry

/-- Adds the entries of a document for names that have none. -/
def merge (rules document : Rules) : Rules :=
  document.entries.foldl (fun rules (name, entry) => rules.insertNew name entry) rules

/-- The rules of several documents. -/
def ofDocuments (documents : List Rules) : Rules := documents.foldl merge ∅

end Rules

end RosRecipes.Rosdep
