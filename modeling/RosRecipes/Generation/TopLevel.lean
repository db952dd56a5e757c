import RosRecipes.Generation.Package

/-!
# Generating the files beside the recipes

The files that tie the packages of a run together.

* `overlayEntries` are the attributes of the overlay, `external` is what the packages need from outside,
* `Job.topLevel` emits the files that the configuration asks for.
-/

namespace RosRecipes

namespace PackageSet

/-- The attributes of the overlay, in the order of their names; the last package of a name counts. -/
def overlayEntries (entries : List (String × String)) : List (String × String) :=
  let last := entries.foldl (fun (t : Table String String) (name, file) => t.insert name file) ∅
  (NameSet.ofList (entries.map (·.1))).toList.filterMap fun name => (last.get? name).map (name, ·)

/-- The dependencies of some packages that are none of these packages. -/
def external (packages : List GeneratedPackage) : NameSet :=
  let all := packages.foldl (fun all p => all ∪ p.dependencies) (∅ : NameSet)
  all \ .ofList (packages.map (·.name))

end PackageSet

namespace Job

variable {σ : Type}

/-- Emits a text into the directory of the files beside the recipes. -/
def emitTop (job : Job σ) (name text : String) : Action σ Unit :=
  Action.emit (job.configuration.topDirectory / name) text.toUTF8

/-- Emits the overlay, if it is asked for. -/
def emitOverlay (job : Job σ) (packages : List GeneratedPackage) : Action σ Unit :=
  let c := job.configuration
  let entries := packages.map fun p => (p.name, c.overlayEntry p.outputFile)
  if c.overlay then job.emitTop "overlay.nix" (PackageSet.overlay (PackageSet.overlayEntries entries)) else return

/-- Emits the shell, if it is asked for. -/
def emitShell (job : Job σ) (packages : List GeneratedPackage) : Action σ Unit := do
  let c := job.configuration
  if c.shell then
    let overlay ← Action.ofExcept (Configuration.expressionOf c.overlayReference)
    job.emitTop "shell.nix"
      (PackageSet.shell overlay c.distribution (PackageSet.external packages).toList c.commandLine)
  else return

/-- Emits the flake, if it is asked for. -/
def emitFlake (job : Job σ) : Action σ Unit :=
  let c := job.configuration
  if c.flake then job.emitTop "flake.nix" (PackageSet.flake c.overlayReference c.distribution) else return

/-- Emits the default expression, if it is asked for. -/
def emitDefault (job : Job σ) : Action σ Unit := do
  let c := job.configuration
  if c.writesDefault then
    let overlay ← Action.ofExcept (Configuration.expressionOf c.overlayReference)
    job.emitTop "default.nix" (PackageSet.default overlay)
  else return

/-- Emits the files beside the recipes. -/
def topLevel (job : Job σ) (packages : List GeneratedPackage) : Action σ Unit := do
  job.emitOverlay packages
  job.emitShell packages
  job.emitFlake
  job.emitDefault

end Job

end RosRecipes
