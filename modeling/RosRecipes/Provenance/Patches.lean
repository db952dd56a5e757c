import RosRecipes.Provenance.Repository

/-!
# Local patches

Commits that the remote does not have are written as patches, one after the other.  All of them begin with the
same number, so each is taken out of the temporary directory before the next one is written.
-/

namespace RosRecipes

variable {σ : Type}

/-- A patch, with the name that git chose for it. -/
structure Patch where
  fileName : String
  content : ByteArray
deriving DecidableEq

/-- The temporary directory of a run. -/
def temporaryDirectory : Place := ["patch-series"]

def temporaryPath : Path := ⟨"/patch-series"⟩

/-- Performs an action with an empty temporary directory, and removes it after that.  A temporary directory is
where nothing else is: what has its name is out of the way until it is removed. -/
def withTemporaryDirectory {α : Type} (action : Path → Action σ α) : Action σ α := do
  let before := (← get).files
  modify fun w => { w with files := w.files.clear temporaryDirectory }
  let outcome ← Action.attempt (action temporaryPath)
  modify fun w => { w with files := w.files.restore temporaryDirectory before }
  Action.ofExcept outcome

/-- Writes one commit as a patch and takes the file. -/
def extractPatch (runner : Runner σ) (r : Repository) (target : Path) (commit : String) : Action σ Patch := do
  let file ← r.formatPatch runner commit target
  let content ← Action.ofFile .file ((← get).files.read file)
  match file.fileName? with
  | none => throw (.invalidOutput ("git format-patch -1 " ++ commit) (.notAFile file))
  | some fileName =>
    Action.changeFiles .file (·.removeFile file)
    return { fileName, content }

/-- The patches of the commits after a revision that changed the package, oldest first. -/
def extractPatches (runner : Runner σ) (r : Repository) (revision : String) : Action σ (List Patch) := do
  let commits ← r.localCommits runner revision
  if commits.isEmpty then return []
  withTemporaryDirectory fun target => commits.mapM (extractPatch runner r target)

end RosRecipes
