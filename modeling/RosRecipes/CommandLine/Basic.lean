import RosRecipes.CommandLine.Arguments
import RosRecipes.Configuration

/-!
# Command lines

A command line stands for a configuration.  It is recorded in generated files without what may differ between
two calls that generate the same: the manifests that exist, and whether files are only compared.

* `Arguments.configuration` gives the configuration, `recorded` the recorded line,
* `configure` reads a whole command line.
-/

namespace RosRecipes.CommandLine

namespace Arguments

/-- The names in lists between commas, without blanks around them. -/
def namesOf (values : List String) : List String :=
  let names := values.flatMap fun value => (Text.split ',' value.toList).map Text.trim
  (names.filter (· ≠ [])).map .ofList

def naming (a : Arguments) : FileNaming :=
  if a.has .nameByPackage then .package
  else if a.has .nameByAttribute then .attributeOf
  else (a.value? .output).elim ({} : Configuration).naming .fixed

def rulesOrigin (a : Arguments) : RulesOrigin :=
  if a.has .noRules then .nowhere
  else match a.valuesOf .rules with
    | [] => .tool
    | files => .files (files.map Path.mk)

/-- Whether a default expression was asked for or refused. -/
def wantsDefault (a : Arguments) : Option Bool :=
  if a.has .default then some true else if a.has .noDefault then some false else none

/-- The configuration, given the recorded line and the place of the stored cache. -/
def configuration (a : Arguments) (commandLine : String) (cache : Option Path) : Configuration :=
  let basis : Configuration := {}
  { sources := a.manifests.map Path.mk
    naming := a.naming
    directory := (a.value? .directory).map Path.mk
    fetch := a.has .fetch
    perPackage := a.has .perPackage
    patches := a.has .patches
    distribution := (a.value? .distribution).getD basis.distribution
    sourceParameter := a.value? .sourceParameter
    sourceRoot := a.value? .sourceRoot
    cachePath := if a.has .noCache then none else cache
    doCheck := a.has .doCheck
    extraInputs := {
      build := namesOf (a.valuesOf .extraBuild)
      propagated := namesOf (a.valuesOf .extraPropagated)
      check := namesOf (a.valuesOf .extraCheck)
      native := namesOf (a.valuesOf .extraNative) }
    flake := a.has .flake
    default := a.wantsDefault
    overlay := !a.has .noOverlay
    shell := !a.has .noShell
    overlayReference := (a.value? .overlayReference).getD basis.overlayReference
    nixfmt := a.has .nixfmt
    mode := if a.has .compare then .compare else .write
    holder := a.value? .holder
    license := a.value? .license
    rules := a.rulesOrigin
    commandLine }

end Arguments

/-- How the program calls itself. -/
def programName : String := "ros2nix"

/-- Is the argument left out of the recorded line? -/
def isUnrecorded (files : FileTree) (argument : String) : Bool :=
  (Text.endsWith "package.xml".toList argument.toList && files.isFile ⟨argument⟩) ||
    argument == "--" ++ Flag.name .compare

/-- The line that is recorded for a call. -/
def recorded (files : FileTree) (line : List String) : String :=
  let program := (line.head?.bind fun p => (Path.mk p).fileName?).getD programName
  String.intercalate " " (program :: line.tail.filter fun argument => !isUnrecorded files argument)

/-- The configuration that a command line asks for. -/
def configure (files : FileTree) (cache : Option Path) (line : List String) : Except UsageFault Configuration := do
  let a ← Arguments.read line.tail
  return a.configuration (recorded files line) cache

end RosRecipes.CommandLine
