/-!
# Options

What may be given on the command line beside manifests: flags, which are given or not, and settings, which
take a value.

* `Flag.ofName?` and `Setting.ofName?` find an option by its name after the two hyphens.
-/

namespace RosRecipes.CommandLine

inductive Flag where
  | nameByPackage
  | nameByAttribute
  | fetch
  | perPackage
  | patches
  | noPatches
  | noCache
  | doCheck
  | flake
  | default
  | noDefault
  | overlay
  | noOverlay
  | shell
  | noShell
  | nixfmt
  | compare
  | noRules
  | help
  | version
deriving DecidableEq, Repr

namespace Flag

def all : List Flag :=
  [nameByPackage, nameByAttribute, fetch, perPackage, patches, noPatches, noCache, doCheck, flake, default, noDefault,
   overlay, noOverlay, shell, noShell, nixfmt, compare, noRules, help, version]

def name : Flag → String
  | nameByPackage => "output-as-ros-pkg-name"
  | nameByAttribute => "output-as-nix-pkg-name"
  | fetch => "fetch"
  | perPackage => "use-per-package-src"
  | patches => "patches"
  | noPatches => "no-patches"
  | noCache => "no-cache"
  | doCheck => "do-check"
  | flake => "flake"
  | default => "default"
  | noDefault => "no-default"
  | overlay => "overlay"
  | noOverlay => "no-overlay"
  | shell => "shell"
  | noShell => "no-shell"
  | nixfmt => "nixfmt"
  | compare => "compare"
  | noRules => "no-rosdep"
  | help => "help"
  | version => "version"

def ofName? (name : String) : Option Flag := all.find? fun f => f.name == name

/-- The flag that a letter stands for. -/
def ofLetter? : Char → Option Flag
  | 'h' => some help
  | 'V' => some version
  | _ => none

/-- The flag that takes back this one; the later of the two counts. -/
def opposite? : Flag → Option Flag
  | patches => some noPatches
  | noPatches => some patches
  | default => some noDefault
  | noDefault => some default
  | overlay => some noOverlay
  | noOverlay => some overlay
  | shell => some noShell
  | noShell => some shell
  | _ => none

theorem mem_all (f : Flag) : f ∈ all := by cases f <;> decide

end Flag

/-- An option with a value. -/
inductive Setting where
  | output
  | directory
  | distribution
  | sourceParameter
  | sourceRoot
  | extraBuild
  | extraPropagated
  | extraCheck
  | extraNative
  | overlayReference
  | holder
  | license
  | rules
deriving DecidableEq, Repr

namespace Setting

def all : List Setting :=
  [output, directory, distribution, sourceParameter, sourceRoot, extraBuild, extraPropagated, extraCheck,
   extraNative, overlayReference, holder, license, rules]

def name : Setting → String
  | output => "output"
  | directory => "output-dir"
  | distribution => "distro"
  | sourceParameter => "src-param"
  | sourceRoot => "source-root"
  | extraBuild => "extra-build-inputs"
  | extraPropagated => "extra-propagated-build-inputs"
  | extraCheck => "extra-check-inputs"
  | extraNative => "extra-native-build-inputs"
  | overlayReference => "nix-ros-overlay"
  | holder => "copyright-holder"
  | license => "license"
  | rules => "rosdep-yaml"

def ofName? (name : String) : Option Setting := all.find? fun s => s.name == name

/-- May the setting be given more than once? -/
def isRepeatable : Setting → Bool
  | extraBuild | extraPropagated | extraCheck | extraNative | rules => true
  | _ => false

/-- Is the value a path?  A path is not empty. -/
def isPath : Setting → Bool
  | directory | rules => true
  | _ => false

theorem mem_all (s : Setting) : s ∈ all := by cases s <;> decide

end Setting

end RosRecipes.CommandLine
