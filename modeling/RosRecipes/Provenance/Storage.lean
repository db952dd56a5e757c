import RosRecipes.World

/-!
# Keeping the cache between runs

The stored cache is read at the start of a run and written at its end, if it has changed.  A file that cannot
be read counts as empty.

* `StoredCache.load` and `StoredCache.save` are the two actions.
-/

namespace RosRecipes.StoredCache

variable {σ : Type}

/-- The cache in a file. -/
def load (path : Path) : Action σ StoredCache := do
  match (← get).files.readText path with
  | .error _ => return { path }
  | .ok content =>
    match read? content with
    | some entries => return { path, entries }
    | none =>
      Action.remark .warn ("Ignoring unreadable git cache " ++ path.text ++ ": <json>")
      return { path }

/-- Writes the cache to its file, if there is anything new in it. -/
def save (c : StoredCache) : Action σ StoredCache := do
  if !c.dirty then return c
  match c.path.parent? with
  | some above => Action.changeFiles (.write above) (·.makeDirectories above)
  | none => pure ()
  Action.changeFiles (.write c.path) (·.write c.path (write c.entries).toUTF8)
  return { c with dirty := false }

end RosRecipes.StoredCache

namespace RosRecipes.Action

variable {σ : Type}

/-- Keeps what outlives the run. -/
def finish : Action σ Unit := do
  match (← get).storedCache with
  | none => pure ()
  | some c =>
    let c ← c.save
    modify fun w => { w with storedCache := some c }

end RosRecipes.Action
