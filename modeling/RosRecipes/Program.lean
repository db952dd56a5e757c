import RosRecipes.CommandLine.Basic
import RosRecipes.Generation.Run
import RosRecipes.Provenance.Storage

/-!
# The program

A call of the program checks its configuration, opens the database, runs, and keeps what it has learnt for
later calls, even if the run was given up.

* `Program.run` does what a configuration asks for, `Program.call` what a command line asks for.
-/

namespace RosRecipes

/-- The cause of an error, which is repeated when an error is reported with all its causes. -/
def Error.cause? : Error → Option String
  | .write _ fault => some fault.message
  | .file fault => some fault.message
  | _ => none

namespace Program

/-- What a call finds around it. -/
structure Surroundings (σ : Type) where
  runner : Runner σ
  /-- Finds an installed program. -/
  locate : String → FileTree → Option Path
  /-- The file of the stored cache. -/
  cache : Option Path
  year : String

/-- An error that ends a call, with what was attempted. -/
structure Failure where
  attempted : Option String := none
  error : Error
deriving DecidableEq, Repr

def Failure.message (f : Failure) : String :=
  String.intercalate ": " (f.attempted.toList ++ [f.error.message] ++ f.error.cause?.toList)

/-- How a call ended. -/
inductive Outcome where
  | refused (fault : CommandLine.UsageFault)
  | failed (failure : Failure)
  | finished (exitCode : Nat)
deriving DecidableEq, Repr

variable {σ : Type}

/-- A step of a call. -/
abbrev Step (σ : Type) (α : Type) := ExceptT Failure (StateM (World σ)) α

/-- An action as a step, with what it attempts. -/
def attempting {α : Type} (attempted : Option String) (a : Action σ α) : Step σ α :=
  ExceptT.mk (Except.mapError (⟨attempted, ·⟩) <$> a.run)

/-- Opens the database of a configuration. -/
def openDatabase (s : Surroundings σ) (c : Configuration) : Step σ Rosdep.Database := do
  match c.rules with
  | .nowhere => return .nothing
  | .files paths =>
    let rules ← attempting "Failed to load rosdep rules" do
      Action.ofExcept (Rosdep.Rules.ofFiles (← get).files paths)
    attempting none (Action.remark .info ("Loaded " ++ toString rules.size ++ " rosdep rules"))
    return .rules rules
  | .tool =>
    match s.locate "rosdep" (← get).files with
    | some path =>
      attempting none (Action.remark .info ("Resolving system dependencies with " ++ path.text))
      return .tool c.distribution
    | none =>
      attempting none
        (Action.remark .warn "rosdep not found, treating all dependencies as ROS packages")
      return .nothing

/-- Does what a configuration asks for, and gives the exit code. -/
def run (s : Surroundings σ) (c : Configuration) : Step σ Nat := do
  attempting none (Action.ofExcept c.validate)
  attempting none (Action.ofExcept c.checkReference)
  let database ← openDatabase s c
  let storedCache ← attempting none (c.cachePath.mapM StoredCache.load)
  modify fun w => { w with runCache := {}, storedCache, patches := {}, mode := c.mode, outOfDate := [] }
  let job : Job σ := { configuration := c, database, runner := s.runner, year := s.year }
  let report ← attempting none (Action.attempt job.run)
  attempting "Failed to save git cache" Action.finish
  return (← attempting none (Action.ofExcept report)).exitCode

/-- Does what a command line asks for. -/
def call (s : Surroundings σ) (line : List String) : StateM (World σ) Outcome := do
  match CommandLine.configure (← get).files s.cache line with
  | .error fault => return .refused fault
  | .ok c =>
    match ← (run s c).run with
    | .error failure => return .failed failure
    | .ok exitCode => return .finished exitCode

end Program

end RosRecipes
