import RosRecipes.Error
import RosRecipes.Provenance.Cache
import RosRecipes.Rosdep.Rules

/-!
# The world of a run

A run reads and writes files, calls outside programs, says what it does, and remembers what it has learnt.  All
that is one state, which an action changes even when it fails.

* `World` is the state, `Action` a step of a run,
* a `Runner` answers commands; it may keep a state of its own and change files.
-/

namespace RosRecipes

/-- How important a remark is. -/
inductive Level where
  | info
  | warn
  | error
deriving DecidableEq, Repr

structure Remark where
  level : Level
  text : String
deriving DecidableEq, Repr

/-- Are generated files written, or compared with those that are there? -/
inductive OutputMode where
  | write
  | compare
deriving DecidableEq, Repr

/-- A generated file that was written or compared. -/
structure Emission where
  path : Path
  content : ByteArray
  /-- The file could not be written. -/
  refused : Bool
deriving DecidableEq

/-- The destinations of patches.  Each of them may be claimed once in a run; they are compared by their components. -/
structure PatchRegistry where
  claimed : List (List Path.Component) := []
deriving DecidableEq, Repr

namespace PatchRegistry

/-- Claims a destination; `none` if it has been claimed before. -/
def claim? (r : PatchRegistry) (destination : Path) : Option PatchRegistry :=
  if destination.components ∈ r.claimed then none else some ⟨destination.components :: r.claimed⟩

end PatchRegistry

structure World (σ : Type) where
  /-- The state of the outside programs. -/
  tools : σ
  files : FileTree
  /-- The remarks so far. -/
  log : List Remark := []
  /-- The texts printed so far. -/
  printed : List String := []
  /-- The answers that the dependency tool has given. -/
  answers : Table String Rosdep.Lookup := ∅
  /-- The results of this run. -/
  runCache : RunCache := {}
  /-- The results that are kept between runs, unless they are switched off. -/
  storedCache : Option StoredCache := none
  patches : PatchRegistry := {}
  mode : OutputMode := .write
  /-- The files that differ from what would be generated. -/
  outOfDate : List Path := []
  /-- The generated files so far. -/
  emitted : List Emission := []

/-- The same world with other outside programs. -/
def World.withTools {σ τ : Type} (w : World σ) (tools : τ) : World τ where
  tools
  files := w.files
  log := w.log
  printed := w.printed
  answers := w.answers
  runCache := w.runCache
  storedCache := w.storedCache
  patches := w.patches
  mode := w.mode
  outOfDate := w.outOfDate
  emitted := w.emitted

/-- A step of a run. -/
abbrev Action (σ : Type) (α : Type) := ExceptT Error (StateM (World σ)) α

/-- Answers commands. -/
structure Runner (σ : Type) where
  run : Command → σ → FileTree → Except Error Output × σ × FileTree

namespace Action

variable {σ : Type} {α : Type}

/-- Performs an action. -/
def perform (a : Action σ α) (w : World σ) : Except Error α × World σ := a.run.run w

def ofExcept (r : Except Error α) : Action σ α := MonadExcept.ofExcept r

/-- Performs an action and gives its outcome. -/
def attempt (a : Action σ α) : Action σ (Except Error α) := ExceptT.mk (Except.ok <$> a.run)

/-- The outcome of a file operation. -/
def ofFile (fault : FileFault → Error) (r : Except FileFault α) : Action σ α :=
  match r with
  | .ok a => pure a
  | .error e => throw (fault e)

def remark (level : Level) (text : String) : Action σ Unit :=
  modify fun w => { w with log := w.log ++ [⟨level, text⟩] }

/-- Runs a command. -/
def call (runner : Runner σ) (c : Command) : Action σ Output := do
  let w ← get
  let (answer, tools, files) := runner.run c w.tools w.files
  set { w with tools, files }
  ofExcept answer

/-- Changes the file tree, or fails and leaves it. -/
def changeFiles (fault : FileFault → Error) (change : FileTree → Except FileFault FileTree) : Action σ Unit := do
  let w ← get
  let files ← ofFile fault (change w.files)
  set { w with files }

end Action

end RosRecipes
