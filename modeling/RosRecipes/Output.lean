import RosRecipes.Diff.Unified
import RosRecipes.World

/-!
# Writing and comparing files

A generated file is written, with the directories above it; or it is compared with the file that is there, and
then nothing is written.

* `Action.emit` does either of the two.
-/

namespace RosRecipes.Action

variable {σ : Type}

/-- Writes a file, with the directories above it. -/
def writeFile (path : Path) (content : ByteArray) : Action σ Unit := do
  match path.parent? with
  | some above => if !above.isEmpty then changeFiles (.write above) (·.makeDirectories above)
  | none => pure ()
  changeFiles (.write path) (·.write path content)

/-- Notes that a file differs from what would be generated. -/
def markOutOfDate (path : Path) : Action σ Unit :=
  modify fun w => { w with outOfDate := w.outOfDate ++ [path] }

/-- Compares a file with what would be generated, and shows the difference. -/
def compareFile (path : Path) (content : ByteArray) : Action σ Unit := do
  match (← get).files.read path with
  | .error fault =>
    remark .error ("Cannot read " ++ path.text ++ ": " ++ fault.message)
    markOutOfDate path
  | .ok found =>
    if found ≠ content then
      remark .error (path.text ++ " is not up-to-date")
      let diff := Diff.unified path.text "up-to-date" (Text.decodeLossy found) (Text.decodeLossy content)
      modify fun w => { w with printed := w.printed ++ [diff ++ "\n"] }
      markOutOfDate path

/-- Writes or compares a generated file. -/
def emit (path : Path) (content : ByteArray) : Action σ Unit := do
  let outcome ← attempt do
    match (← get).mode with
    | .write => writeFile path content
    | .compare => compareFile path content
  modify fun w => { w with emitted := w.emitted ++ [⟨path, content, !outcome.isOk⟩] }
  ofExcept outcome

end RosRecipes.Action
