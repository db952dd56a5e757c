import RosRecipes.Categories
import RosRecipes.FlakeReference
import RosRecipes.Provenance.Resolution

/-!
# Configurations

What is asked of a run: the manifests, where recipes go and how they are named, where sources come from, and
which files are written beside the recipes.

* `validate` and `checkReference` refuse what cannot work,
* `outputFile` is where a recipe goes, `overlayEntry` how the overlay refers to it,
* `localSource` is the source of a package that is not fetched.
-/

namespace RosRecipes

/-- How the files of recipes are named. -/
inductive FileNaming where
  /-- One name for all, so each recipe has its own directory. -/
  | fixed (name : String)
  /-- After the package. -/
  | package
  /-- After the attribute of the package. -/
  | attributeOf
deriving DecidableEq, Repr

/-- Where system dependencies are looked up. -/
inductive RulesOrigin where
  | tool
  /-- Files of rules; the first file that has a name decides. -/
  | files (paths : List Path)
  /-- Nowhere: every dependency is a package of the set. -/
  | nowhere
deriving DecidableEq, Repr

structure Configuration where
  /-- The manifests, in order. -/
  sources : List Path := []
  naming : FileNaming := .fixed "package.nix"
  /-- The directory that was asked for. -/
  directory : Option Path := none
  /-- Fetch the sources instead of using the directories of the manifests. -/
  fetch : Bool := false
  /-- Fetch only the directory of each package. -/
  perPackage : Bool := false
  patches : Bool := false
  distribution : String := "rolling"
  sourceParameter : Option String := none
  /-- The root of every source; it may hold the placeholder of the package name. -/
  sourceRoot : Option String := none
  /-- The file of the stored cache, unless it is switched off. -/
  cachePath : Option Path := none
  doCheck : Bool := false
  extraInputs : ExtraInputs := {}
  flake : Bool := false
  /-- Whether a default expression was asked for or refused. -/
  default : Option Bool := none
  overlay : Bool := true
  shell : Bool := true
  /-- The package set below the overlay. -/
  overlayReference : String := "github:lopsided98/nix-ros-overlay/master"
  nixfmt : Bool := false
  mode : OutputMode := .write
  holder : Option String := none
  license : Option String := none
  rules : RulesOrigin := .tool
  /-- The command line that is recorded in generated files. -/
  commandLine : String := "ros2nix"
deriving DecidableEq, Repr

namespace Configuration

def validate (c : Configuration) : Except Error Unit :=
  if c.patches && !c.fetch then .error (.configuration .patchesWithoutFetch)
  else if c.sources.isEmpty then .error (.configuration .noManifest)
  else .ok ()

/-- Is a default expression written?  A flake takes its place, unless one was asked for. -/
def writesDefault (c : Configuration) : Bool := c.default.getD !c.flake

/-- The Nix expression of a package set. -/
def expressionOf (reference : String) : Except Error String :=
  match FlakeReference.expression? reference with
  | some e => .ok e
  | none => .error (.unsupportedReference reference)

/-- Refuses a package set without a Nix expression, if one will be needed. -/
def checkReference (c : Configuration) : Except Error Unit :=
  if c.shell || c.writesDefault then discard (expressionOf c.overlayReference) else .ok ()

/-! ### Places -/

/-- The directory of all recipes, if they have one: files that are named after packages go into one directory,
the working directory unless another was asked for. -/
def commonDirectory? (c : Configuration) : Option Path :=
  match c.directory, c.naming with
  | some directory, _ => some directory
  | none, .fixed _ => none
  | none, _ => some ⟨"."⟩

/-- The directory of the files beside the recipes. -/
def topDirectory (c : Configuration) : Path := c.commonDirectory?.getD ⟨"."⟩

/-- The file name of the recipe of a package. -/
def fileName (c : Configuration) (package : String) : String :=
  match c.naming with
  | .fixed name => name
  | .package => package ++ ".nix"
  | .attributeOf => attributeName package ++ ".nix"

/-- The file of the recipe of a package: without a common directory it is next to the manifest. -/
def outputFile (c : Configuration) (manifest : Path) (package : String) : Path :=
  c.commonDirectory?.getD (manifest.parent?.getD ⟨""⟩) / c.fileName package

/-- The file of a recipe as the overlay refers to it. -/
def overlayEntry (c : Configuration) (outputFile : Path) : String :=
  match c.commonDirectory? with
  | some _ => outputFile.fileName?.getD ""
  | none => outputFile.text

/-- The directory of a manifest as the source of a recipe.  Without a common directory the recipe is in it. -/
def localSource (c : Configuration) (home manifest : Path) : Source :=
  match c.commonDirectory? with
  | none => .ofDirectory "."
  | some directory => .ofDirectory (((manifest.relativeTo directory home).parent?.getD ⟨""⟩).text)

/-! ### Packages -/

/-- What stands for the name of the package in a source root. -/
def namePlaceholder : String := "\x7bpackage_name\x7d"

/-- The source root that was asked for. -/
def sourceRootOf (c : Configuration) (package : String) : Option String :=
  c.sourceRoot.map (Text.replace namePlaceholder package)

def provenanceOptions (c : Configuration) : Provenance.Options where
  perPackage := c.perPackage
  patches := c.patches

end Configuration

end RosRecipes
