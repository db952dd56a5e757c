import RosRecipes.World

/-!
# Prefetching

A revision is fetched once to learn the hash of its content.
-/

namespace RosRecipes

variable {σ : Type}

/-- The command that fetches a revision, or one directory of it, and prints its hash. -/
def prefetchCommand (location : Path) (revision : String) (directory : Option String) : Command where
  program := "nix-prefetch-git"
  arguments :=
    ["--quiet"] ++
    (match directory with
      | some d => ["--sparse-checkout", d, "--non-cone-mode"]
      | none => []) ++
    [location.text, revision]

/-- Fetches a revision. -/
def prefetch (runner : Runner σ) (location : Path) (revision : String) (directory : Option String) :
    Action σ Prefetched := do
  let command := prefetchCommand location revision directory
  Action.remark .info ("Prefetching " ++ location.text ++ " at " ++ revision)
  let output ← Action.call runner command
  match Prefetched.parse? output.stdout with
  | none => throw (.invalidOutput command.line .notJson)
  | some result =>
    if result.revision ≠ revision then
      Action.remark .warn ("nix-prefetch-git returned revision " ++ result.revision ++ " for " ++ revision)
    return result

end RosRecipes
