import RosRecipes.Categories
import RosRecipes.Naming
import RosRecipes.Source
import RosRecipes.Text.Blank

/-!
# Recipes

A recipe is a Nix function: its parameters are the library, the builder, what the source needs, and the
first component of every input; its body is a call of the builder.

* `Recipe.render` writes a recipe, `Recipe.parameters` gives the names it binds.
-/

namespace RosRecipes

namespace Recipe

/-- Attributes that not every recipe has. -/
structure Options where
  /-- A parameter that provides the source. -/
  sourceParameter : Option String := none
  sourceRoot : Option String := none
  doCheck : Option Bool := none
  /-- Paths of patches, as seen from the recipe. -/
  patches : List String := []
deriving DecidableEq, Repr

/-- The attributes that a source brings along. -/
def Options.ofSource (source : Source) : Options where
  sourceParameter := source.parameter?
  sourceRoot := source.sourceRoot

/-- The notice above a recipe. -/
structure Notice where
  holder : Option String := none
  license : Option String := none
  year : String
deriving DecidableEq, Repr

/-- The comment lines of a notice; there are none if it names neither a holder nor a license. -/
def Notice.render (n : Notice) : String :=
  if n.holder.isNone && n.license.isNone then ""
  else
    "\n# Copyright " ++ n.year ++ " " ++ n.holder.getD "" ++ "\n# Distributed under the terms of the " ++
      n.license.getD "" ++ " license\n\n"

end Recipe

structure Recipe where
  /-- The name of the package in Nix. -/
  name : String
  version : String
  description : String
  licenses : List License
  distribution : String
  buildType : String
  source : Source
  inputs : Categories
  options : Recipe.Options
deriving DecidableEq

namespace Recipe

/-- The first component of an attribute path. -/
def firstComponent (input : String) : String := .ofList (input.toList.takeWhile (· ≠ '.'))

/-- The parameters of the function. -/
def parameters (r : Recipe) : List String :=
  ["lib", "buildRosPackage"] ++ r.options.sourceParameter.toList ++ (r.inputs.all.image firstComponent).toList

/-- An attribute with a text that is written as it is. -/
def textAttribute (name value : String) : String := name ++ " = " ++ Nix.quoted value ++ ";"

/-- The attributes of a fetch. -/
def fetchAttributes (s : GitSource) : List String :=
  (match s.host with
    | .gitHub owner repository => [textAttribute "owner" owner, textAttribute "repo" repository]
    | .generic url => [textAttribute "url" url]) ++
  [textAttribute "rev" s.revision, textAttribute "sha256" s.sha256] ++
  (match s.sparseCheckout with
    | some path => ["sparseCheckout = [" ++ Nix.quoted path ++ "];", "nonConeMode = true;"]
    | none => [])

/-- The source as a Nix expression. -/
def renderSource : Source → String
  | .parameter name => name
  | .directory path => path
  | .git s =>
    s.host.fetcher ++ " \x7b\n" ++ String.join ((fetchAttributes s).map fun a => "    " ++ a ++ "\n") ++ "  \x7d"

/-- The list of a category; empty ones are left out. -/
def inputList (name : String) (inputs : NameSet) : List String :=
  if inputs.isEmpty then [] else ["  " ++ name ++ " = " ++ Nix.list inputs.toList ++ ";"]

/-- The lines of the attributes that not every recipe has. -/
def optionalLines (r : Recipe) : List String :=
  (if r.options.patches.isEmpty then []
   else ["  patches = [\n    " ++ String.intercalate "\n    " r.options.patches ++ "\n  ];"]) ++
  (r.options.sourceRoot.map fun root => "  " ++ textAttribute "sourceRoot" root).toList ++
  (r.options.doCheck.map fun check => "  doCheck = " ++ (if check then "true" else "false") ++ ";").toList ++
  inputList "buildInputs" r.inputs.build ++
  inputList "checkInputs" r.inputs.check ++
  inputList "propagatedBuildInputs" r.inputs.propagated ++
  inputList "nativeBuildInputs" r.inputs.native

/-- The lines of the function. -/
def lines (r : Recipe) : List String :=
  ["\x7b " ++ String.intercalate ", " r.parameters ++ " \x7d:",
   "buildRosPackage rec \x7b",
   "  " ++ textAttribute "pname" ("ros-" ++ r.distribution ++ "-" ++ r.name),
   "  " ++ textAttribute "version" r.version,
   "",
   "  src = " ++ renderSource r.source ++ ";",
   "",
   "  " ++ textAttribute "buildType" r.buildType] ++
  r.optionalLines ++
  ["",
   "  meta = \x7b",
   "    " ++ textAttribute "description" (Nix.escape r.description),
   "    license = with lib.licenses; " ++ Nix.list (r.licenses.map License.render) ++ ";",
   "  \x7d;",
   "\x7d"]

/-- The text of a recipe below its notice. -/
def render (r : Recipe) (notice : Notice) : String :=
  notice.render ++ String.join (r.lines.map (· ++ "\n"))

end Recipe

end RosRecipes
