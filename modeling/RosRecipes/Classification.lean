import RosRecipes.Categories
import RosRecipes.Rosdep.Database

/-!
# Sorting dependencies into categories

The active declarations of a manifest are resolved role by role.  What packages of the set need at run time is
propagated; what is left of the build dependencies is needed to build only, and what is left of the test
dependencies to check only.  Build tools count for building and as native inputs, since a manifest does not say
where they run.

* `Manifest.classify` gives the four categories.
-/

namespace RosRecipes.Manifest

variable {σ : Type}

/-- The packages of one name. -/
def resolveName (db : Rosdep.Database) (runner : Runner σ) (m : Manifest) (role : Role) (name : String) :
    Action σ NameSet := do
  match ← db.resolve runner name with
  | some packages => return packages
  | none => throw (.unresolved m.name name role)

/-- The packages of all active declarations in some roles. -/
def resolveRoles (db : Rosdep.Database) (runner : Runner σ) (m : Manifest) (ctx : Condition.Context)
    (roles : List Role) : Action σ NameSet :=
  roles.foldlM (fun resolved role =>
    (m.activeNames ctx role).toList.foldlM (fun resolved name => do
      return resolved ∪ (← m.resolveName db runner role name)) resolved) ∅

/-- The inputs of a package. -/
def classify (db : Rosdep.Database) (runner : Runner σ) (m : Manifest) (ctx : Condition.Context) :
    Action σ Categories := do
  let build ← m.resolveRoles db runner ctx [.build, .buildTool]
  let propagated ← m.resolveRoles db runner ctx [.exec, .buildExport, .buildToolExport]
  let test ← m.resolveRoles db runner ctx [.test]
  let native ← m.resolveRoles db runner ctx [.buildTool, .buildToolExport]
  let build := build \ propagated
  return { build, propagated, check := test \ build, native }

end RosRecipes.Manifest
