import RosRecipes.Json

/-!
# Prefetched revisions

A revision of a repository with the hash of its content.  It is written as a JSON object; reading it also
takes an array of the two texts, and other fields do not matter.
-/

namespace RosRecipes

/-- A revision and the hash of its content. -/
structure Prefetched where
  revision : String
  sha256 : String
deriving DecidableEq, Repr

namespace Prefetched

/-- The text of the only field of a name. -/
def field? (name : String) (fields : List (Option String × Json)) : Option String :=
  match fields.filter (·.1 == some name) with
  | [(_, value)] => value.text?
  | _ => none

def ofJson? : Json → Option Prefetched
  | .object fields =>
    if fields.all (·.1.isSome) then do
      return ⟨← field? "rev" fields, ← field? "sha256" fields⟩
    else none
  | .array [revision, sha256] => do return ⟨← revision.text?, ← sha256.text?⟩
  | _ => none

/-- Reads what a prefetch wrote. -/
def parse? (s : String) : Option Prefetched := (Json.read? s).bind ofJson?

def write (p : Prefetched) : String :=
  Json.writeObject [("rev", Json.writeString p.revision), ("sha256", Json.writeString p.sha256)]

end Prefetched

end RosRecipes
