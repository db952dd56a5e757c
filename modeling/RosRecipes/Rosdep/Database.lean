import RosRecipes.Rosdep.Rules
import RosRecipes.Text.Search
import RosRecipes.World

/-!
# Databases

The databases of system dependencies: none at all, fixed entries, rules from files, or an installed tool whose
answers are remembered for the run.

* `Rules.ofFiles` reads rules,
* `Database.lookup` answers a name, `Database.resolve` gives its packages on the target system.
-/

namespace RosRecipes.Rosdep

/-- Adds the rules of one file. -/
def Rules.addFile (files : FileTree) (rules : Rules) (path : Path) : Except Error Rules := do
  let content ← (files.readText path).mapError .file
  match Yaml.Value.rules? content with
  | some document => return rules.merge document
  | none => throw .yaml

/-- The rules of several files; the first fault ends the reading. -/
def Rules.ofFiles (files : FileTree) (paths : List Path) : Except Error Rules :=
  paths.foldlM (Rules.addFile files) ∅

inductive Database where
  | nothing
  /-- Fixed packages for every system; names without packages cannot be satisfied. -/
  | fixed (entries : Table String (Option NameSet))
  | rules (rules : Rules)
  /-- The tool, asked about a distribution. -/
  | tool (distribution : String)

/-- The question to the tool. -/
def question (distribution name system : String) : Command where
  program := "rosdep"
  arguments := ["resolve", "--os=" ++ system ++ ":_", "--rosdistro=" ++ distribution, name]

/-- The packages in an answer: all words but those of comments. -/
def packagesOfAnswer (stdout : String) : NameSet :=
  let lines := (Text.lines stdout.toList).map Text.trim
  let lines := lines.filter fun line => line.head? ≠ some '#'
  .ofList ((lines.flatMap Text.words).map .ofList)

/-- What a failed answer means, going by what the tool wrote to standard error. -/
def lookupOfFailure? (stderr : String) : Option Lookup :=
  let said := fun (part : String) => Text.contains part.toList (Text.asciiLower stderr).toList
  if said "no definition of" then some .unsatisfiable
  else if said "cannot locate rosdep definition" || said "no rosdep rule" then some .unknown
  else none

/-- What an answer of the tool means. -/
def lookupOfAnswer (answer : Except Error Output) : Except Error Lookup :=
  match answer with
  | .ok output => .ok (.found (packagesOfAnswer output.stdout))
  | .error (.commandFailed command directory status stderr) =>
    match lookupOfFailure? stderr with
    | some lookup => .ok lookup
    | none => .error (.commandFailed command directory status stderr)
  | .error e => .error e

namespace Database

variable {σ : Type}

/-- Asks the tool. -/
def ask (runner : Runner σ) (distribution name system : String) : Action σ Lookup := do
  let answer ← Action.attempt (Action.call runner (question distribution name system))
  Action.ofExcept (lookupOfAnswer answer)

/-- Answers a name.  The tool is asked once per name; an error is not remembered. -/
def lookup (db : Database) (runner : Runner σ) (name system : String) : Action σ Lookup := do
  match db with
  | .nothing => return .unknown
  | .fixed entries =>
    match entries.get? name with
    | none => return .unknown
    | some none => return .unsatisfiable
    | some (some packages) => return .found packages
  | .rules document => return document.lookup name system
  | .tool distribution =>
    match (← get).answers.get? name with
    | some lookup => return lookup
    | none =>
      let lookup ← ask runner distribution name system
      modify fun w => { w with answers := w.answers.insert name lookup }
      return lookup

/-- The packages of a name on the target system; `none` if it cannot be satisfied there. -/
def resolve (db : Database) (runner : Runner σ) (name : String) : Action σ (Option NameSet) := do
  return (← db.lookup runner name targetSystem).packages? name

end Database

end RosRecipes.Rosdep
