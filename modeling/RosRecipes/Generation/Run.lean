import RosRecipes.Generation.TopLevel

/-!
# Runs

A run generates the packages of all manifests in order, and then the files beside the recipes.  A manifest that
fails does not stop the others, unless the error is fatal for the run.

* `Job.run` is a run, `Report.exitCode` what it tells its caller.
-/

namespace RosRecipes

/-- The outcome of a run that was not given up. -/
structure Report where
  packages : List GeneratedPackage := []
  /-- The manifests that could not be turned into a recipe. -/
  failed : List Path := []
  /-- The files that differ from what would be generated. -/
  outOfDate : List Path := []
deriving DecidableEq

/-- A failed manifest counts for more than a file that is out of date. -/
def Report.exitCode (r : Report) : Nat :=
  if !r.failed.isEmpty then 1 else if !r.outOfDate.isEmpty then 2 else 0

namespace Job

variable {σ : Type}

/-- Generates one package more. -/
def addPackage (job : Job σ) (r : Report) (path : Path) : Action σ Report := do
  match ← Action.attempt (job.package path) with
  | .ok p => return { r with packages := r.packages ++ [p] }
  | .error e =>
    if e.isFatal then
      Action.remark .error e.message
      throw e
    else
      Action.remark .error ("Failed to prepare Nix expression from " ++ path.text ++ ": " ++ e.message)
      return { r with failed := r.failed ++ [path] }

/-- Generates all packages and the files beside the recipes. -/
def generate (job : Job σ) : Action σ Report := do
  let r ← job.configuration.sources.foldlM job.addPackage {}
  job.topLevel r.packages
  return r

/-- Adds to a report which files are out of date. -/
def conclude (r : Report) : Action σ Report := do
  let outOfDate := (← get).outOfDate
  if !outOfDate.isEmpty then
    Action.remark .error "Some files are not up-to-date"
  return { r with outOfDate }

/-- A run. -/
def run (job : Job σ) : Action σ Report := do
  modify fun w => { w with answers := ∅ }
  conclude (← job.generate)

end Job

end RosRecipes
