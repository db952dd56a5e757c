import RosRecipes.Classification
import RosRecipes.Configuration
import RosRecipes.Output
import RosRecipes.PackageSet
import RosRecipes.Recipe

/-!
# Generating a package

A manifest becomes a recipe, and perhaps patches beside it.  All that can fail is tried before the first file
is emitted.

* `Job.package` generates the files of one manifest.
-/

namespace RosRecipes

/-- What a run works with. -/
structure Job (σ : Type) where
  configuration : Configuration
  database : Rosdep.Database
  runner : Runner σ
  /-- The year of the copyright notices. -/
  year : String

/-- A package that has been generated. -/
structure GeneratedPackage where
  /-- The name of the package in Nix. -/
  name : String
  outputFile : Path
  dependencies : NameSet
deriving DecidableEq

namespace Job

variable {σ : Type}

/-- Where the conditions of manifests are decided. -/
def context (job : Job σ) : Condition.Context := .forDistribution job.configuration.distribution

/-- Reads a manifest. -/
def readManifest (path : Path) : Action σ Manifest := do
  match (← get).files.readText path with
  | .error fault => throw (.manifest path (.file fault))
  | .ok content => Action.ofExcept ((Manifest.parse content).mapError (.manifest path))

/-- The inputs of a package. -/
def inputsOf (job : Job σ) (m : Manifest) : Action σ Categories := do
  return (← m.classify job.database job.runner job.context).extend job.configuration.extraInputs

/-- The source of the package of a manifest, and its local commits. -/
def sourceOf (job : Job σ) (path : Path) : Action σ (Source × List Patch) := do
  let c := job.configuration
  match c.sourceParameter with
  | some name => return (.parameter name, [])
  | none =>
    if c.fetch then
      let directory := (path.parent?.filter (!·.isEmpty)).getD ⟨"."⟩
      let p ← Provenance.resolve job.runner directory c.provenanceOptions
      return (.git p.source, p.patches)
    else return (c.localSource (← get).files.homePath path, [])

/-- The attributes of a recipe that not every recipe has. -/
def optionsFor (job : Job σ) (m : Manifest) (source : Source) (patches : List Patch) : Recipe.Options :=
  let c := job.configuration
  let basis := Recipe.Options.ofSource source
  { basis with
    sourceRoot := (c.sourceRootOf m.name).or basis.sourceRoot
    doCheck := if c.doCheck then some true else none
    patches := patches.map fun p => "./" ++ p.fileName }

/-- The recipe of a package. -/
def recipe (job : Job σ) (m : Manifest) (inputs : Categories) (source : Source) (patches : List Patch) :
    Recipe where
  name := attributeName m.name
  version := m.version
  description := m.description
  licenses := m.licenses.map License.ofManifest
  distribution := job.configuration.distribution
  buildType := m.buildType job.context
  source
  inputs
  options := job.optionsFor m source patches

def notice (job : Job σ) : Recipe.Notice where
  holder := job.configuration.holder
  license := job.configuration.license
  year := job.year

/-- The command that formats a text. -/
def formatCommand (text : String) : Command where
  program := "nixfmt"
  arguments := []
  input := some text

/-- The text of the file of a recipe. -/
def recipeText (job : Job σ) (r : Recipe) : Action σ String := do
  let text := PackageSet.generatedBy job.configuration.commandLine ++ r.render job.notice
  if job.configuration.nixfmt then return (← Action.call job.runner (formatCommand text)).stdout
  else return text

/-- Emits a patch beside its recipe.  Its destination is claimed first. -/
def emitPatch (directory : Path) (p : Patch) : Action σ Unit := do
  let destination := directory / p.fileName
  match (← get).patches.claim? destination with
  | none => throw (.patchCollision destination)
  | some patches =>
    modify fun w => { w with patches }
    Action.emit destination p.content

/-- Everything about a package that is known before its first file is emitted. -/
structure Draft where
  manifest : Manifest
  recipe : Recipe
  text : String
  outputFile : Path
  patches : List Patch

/-- Prepares the package of a manifest. -/
def prepare (job : Job σ) (path : Path) : Action σ Draft := do
  let manifest ← readManifest path
  let inputs ← job.inputsOf manifest
  let (source, patches) ← job.sourceOf path
  let recipe := job.recipe manifest inputs source patches
  let text ← job.recipeText recipe
  return { manifest, recipe, text, outputFile := job.configuration.outputFile path manifest.name, patches }

/-- Says that the recipe of a package was written. -/
def announce (d : Draft) : Action σ Unit := do
  match (← get).mode with
  | .write =>
    Action.remark .info
      ("Successfully generated derivation for package '" ++ d.manifest.name ++ "' as '" ++ d.outputFile.text ++ "'.")
  | .compare => return

/-- Emits the files of a package. -/
def emitDraft (d : Draft) : Action σ GeneratedPackage := do
  Action.emit d.outputFile d.text.toUTF8
  d.patches.forM (emitPatch (d.outputFile.parent?.getD ⟨""⟩))
  announce d
  return { name := d.recipe.name, outputFile := d.outputFile, dependencies := d.recipe.inputs.all }

/-- Generates the files of the package of a manifest. -/
def package (job : Job σ) (path : Path) : Action σ GeneratedPackage := do
  emitDraft (← job.prepare path)

end Job

end RosRecipes
