import RosRecipes.CommandLine.Option
import RosRecipes.Text.Search

/-!
# Reading arguments

Arguments are read from left to right.  The value of a setting is the argument after it, unless it follows the
name after an equals sign; all that is no option is a manifest, and after `--` everything is.  What has been
read last is pending: it is accepted when the next option or manifest begins, or at the end.  An argument that
is no option at all is refused even before that.

* `Arguments.read` gives what was asked for, or the first fault.
-/

namespace RosRecipes.CommandLine

/-- Why a command line is refused; asking for help or the version is answered in place of a run. -/
inductive UsageFault where
  | conflict
  | help
  | version
  /-- A setting without its value, or an empty path. -/
  | invalidValue
  | noManifest
  /-- A flag with a value. -/
  | needlessValue
  | unknownArgument
deriving DecidableEq, Repr

/-- What has been accepted. -/
structure Arguments where
  flags : List Flag := []
  values : List (Setting × String) := []
  manifests : List String := []
deriving DecidableEq, Repr

/-- What was read last. -/
inductive Pending where
  | nothing
  | setting (s : Setting) (value : Option String)
  | manifests (paths : List String)
deriving DecidableEq, Repr

namespace Arguments

def has (a : Arguments) (f : Flag) : Bool := f ∈ a.flags

/-- The values of a setting, in order. -/
def valuesOf (a : Arguments) (s : Setting) : List String := (a.values.filter (·.1 = s)).map (·.2)

/-- The value of a setting that is given at most once. -/
def value? (a : Arguments) (s : Setting) : Option String := (a.valuesOf s).head?

/-- Accepts a flag, which may be given once; it takes back its opposite. -/
def acceptFlag (a : Arguments) (f : Flag) : Except UsageFault Arguments :=
  if a.has f then .error .conflict
  else .ok { a with flags := (a.flags.filter fun g => some g ≠ f.opposite?) ++ [f] }

/-- Accepts the value of a setting. -/
def acceptValue (a : Arguments) (s : Setting) (value : String) : Except UsageFault Arguments :=
  if !s.isRepeatable && (a.value? s).isSome then .error .conflict
  else if s.isPath && value.isEmpty then .error .invalidValue
  else .ok { a with values := a.values ++ [(s, value)] }

/-- Accepts what is pending. -/
def accept (a : Arguments) : Pending → Except UsageFault Arguments
  | .nothing => .ok a
  | .setting _ none => .error .invalidValue
  | .setting s (some value) => a.acceptValue s value
  | .manifests paths =>
    if paths.any (·.isEmpty) then .error .invalidValue else .ok { a with manifests := a.manifests ++ paths }

/-- Reads a flag. -/
def readFlag (a : Arguments) (pending : Pending) (f : Flag) : Except UsageFault (Arguments × Pending) := do
  let a ← a.accept pending
  match f with
  | .help => throw .help
  | .version => throw .version
  | f => return (← a.acceptFlag f, .nothing)

/-- Reads the name of a setting, perhaps with its value. -/
def readSetting (a : Arguments) (pending : Pending) (s : Setting) (value : Option String) :
    Except UsageFault (Arguments × Pending) := do
  let a ← a.accept pending
  match value with
  | some value => return (← a.acceptValue s value, .nothing)
  | none => return (a, .setting s none)

/-- Reads a manifest. -/
def readManifest (a : Arguments) (pending : Pending) (path : String) : Except UsageFault (Arguments × Pending) :=
  match pending with
  | .manifests paths => .ok (a, .manifests (paths ++ [path]))
  | pending => do return (← a.accept pending, .manifests [path])

/-- The kinds of arguments. -/
inductive Argument where
  /-- All arguments after it are manifests. -/
  | endOfOptions
  /-- An option by its name, perhaps with a value after an equals sign. -/
  | option (name : String) (value : Option String)
  /-- Options by their letters. -/
  | letters (first : Char)
  /-- A value or a manifest. -/
  | word (text : String)
deriving DecidableEq, Repr

/-- What an argument is. -/
def Argument.of (text : String) : Argument :=
  match text.toList with
  | ['-', '-'] => .endOfOptions
  | '-' :: '-' :: rest =>
    match rest.dropWhile (· ≠ '=') with
    | _ :: value => .option (.ofList (rest.takeWhile (· ≠ '='))) (some (.ofList value))
    | [] => .option (.ofList rest) none
  | '-' :: first :: _ => .letters first
  | _ => .word text

/-- Reads an option by its name. -/
def readOption (a : Arguments) (pending : Pending) (name : String) (value : Option String) :
    Except UsageFault (Arguments × Pending) :=
  match Flag.ofName? name, Setting.ofName? name with
  | some f, _ => if value.isSome then .error .needlessValue else a.readFlag pending f
  | none, some s => a.readSetting pending s value
  | none, none => .error .unknownArgument

/-- Reads arguments up to the end. -/
def readFrom (a : Arguments) (pending : Pending) : List String → Except UsageFault Arguments
  | [] => a.accept pending
  | text :: rest =>
    match Argument.of text with
    | .endOfOptions => do
      let (a, pending) ← rest.foldlM (fun (a, pending) path => a.readManifest pending path) (a, pending)
      a.accept pending
    | .option name value => do
      let (a, pending) ← a.readOption pending name value
      a.readFrom pending rest
    | .letters first => do
      match Flag.ofLetter? first with
      | some f =>
        let (a, pending) ← a.readFlag pending f
        a.readFrom pending rest
      | none => throw .unknownArgument
    | .word text =>
      match pending with
      | .setting s none => a.readFrom (.setting s (some text)) rest
      | pending => do
        let (a, pending) ← a.readManifest pending text
        a.readFrom pending rest

/-- Are there options that exclude each other? -/
def hasConflict (a : Arguments) : Bool :=
  (a.has .nameByPackage && a.has .nameByAttribute) ||
  ((a.value? .output).isSome && (a.has .nameByPackage || a.has .nameByAttribute)) ||
  ((a.value? .rules).isSome && a.has .noRules)

/-- Reads the arguments after the name of the program. -/
def read (arguments : List String) : Except UsageFault Arguments := do
  let a ← readFrom {} .nothing arguments
  if a.hasConflict then throw .conflict
  if a.manifests.isEmpty then throw .noManifest
  return a

end Arguments

end RosRecipes.CommandLine
