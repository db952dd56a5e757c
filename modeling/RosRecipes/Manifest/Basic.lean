import RosRecipes.Condition.Basic
import RosRecipes.Manifest.Role
import RosRecipes.NameSet

/-!
# Manifests

A manifest names a package and declares what it depends on.  A declaration counts only where its condition
holds.
-/

namespace RosRecipes

/-- One declared dependency, in one role. -/
structure Declaration where
  name : String
  role : Role
  condition : Option Condition := none
deriving DecidableEq, Repr

/-- A build type, perhaps with a condition. -/
structure BuildType where
  name : String
  condition : Option Condition := none
deriving DecidableEq, Repr

structure Manifest where
  format : Nat
  name : String
  version : String
  description : String
  licenses : List String
  buildTypes : List BuildType
  dependencies : List Declaration
deriving DecidableEq, Repr

def Declaration.isActive (d : Declaration) (ctx : Condition.Context) : Bool :=
  Condition.holdsIfAny d.condition ctx

namespace Manifest

/-- The build type of a manifest that gives none. -/
def defaultBuildType : String := "catkin"

/-- The names that are declared in a role and count. -/
def activeNames (m : Manifest) (ctx : Condition.Context) (role : Role) : NameSet :=
  .ofList ((m.dependencies.filter fun d => d.role = role ∧ d.isActive ctx).map (·.name))

/-- The first build type whose condition holds. -/
def buildType (m : Manifest) (ctx : Condition.Context) : String :=
  ((m.buildTypes.find? fun b => Condition.holdsIfAny b.condition ctx).map (·.name)).getD defaultBuildType

end Manifest

end RosRecipes
