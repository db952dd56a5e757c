import RosRecipes.Program
import RosRecipes.Shell.Launch

/-!
# The command line

The files that a call can need are read into a file tree, the call is answered on the tree, and the files that
have changed are written.  Outside programs are run by the shell of this library, so they have to be scripts.
-/

namespace RosRecipes

/-- Adds a file, and the directories above it. -/
def FileTree.plant (t : FileTree) (place : Place) (content : ByteArray) (executable : Bool) : FileTree :=
  let above := (List.range place.length).map fun i => place.take i
  (above.foldl (fun t directory => if (t.find? directory).isSome then t else t.set directory .directory) t).set place
    (.file content executable)

/-- Reads what a directory holds. -/
partial def readEntry (t : FileTree) (place : Place) (e : IO.FS.DirEntry) : IO FileTree := do
  let place := place ++ [e.fileName]
  if ← e.path.isDir then
    (← e.path.readDir).foldlM (fun t inner => readEntry t place inner) (t.set place .directory)
  else
    try return t.plant place (← IO.FS.readBinFile e.path) false
    catch _ => return t

/-- The names that lead to a path from the root. -/
def placeOf (home p : Path) : Place :=
  (p.normalForm home).filterMap fun c => match c with | .name n => some n | _ => none

/-- Reads a file, if it is there. -/
def readFile (t : FileTree) (p : Path) (executable : Bool) : IO FileTree := do
  try return t.plant (placeOf t.homePath p) (← IO.FS.readBinFile p.text) executable
  catch _ => return t

/-- Writes a file of the tree, with the directories above it. -/
def writeEntry (place : Place) (content : ByteArray) : IO Unit := do
  IO.FS.createDirAll ("/" ++ String.intercalate "/" place.dropLast)
  IO.FS.writeBinFile ("/" ++ String.intercalate "/" place) content

/-- The programs that a run may ask. -/
def askedPrograms : List String := ["git", "nix-prefetch-git", "rosdep", "nixfmt"]

/-- Is the year a leap year? -/
def isLeapYear (year : Nat) : Bool := (year % 4 == 0 && year % 100 != 0) || year % 400 == 0

def daysInYear (year : Nat) : Nat := if isLeapYear year then 366 else 365

/-- The year of the day that is `days` after the start of a year. -/
def yearAfter (year days : Nat) : Nat :=
  if daysInYear year ≤ days then yearAfter (year + 1) (days - daysInYear year) else year
termination_by days
decreasing_by
  have : 0 < daysInYear year := by unfold daysInYear; split <;> omega
  omega

/-- The year of a moment, which is given in seconds since the start of 1970. -/
def yearOfSeconds (seconds : Nat) : Nat := yearAfter 1970 (seconds / 86400)

/-- The current year. -/
def currentYear : IO Nat := do
  let (_, file) ← IO.FS.createTempFile
  let seconds := (← file.metadata).modified.sec
  IO.FS.removeFile file
  return yearOfSeconds seconds.toNat

def showRemark (r : Remark) : String :=
  match r.level with
  | .info => "INFO " ++ r.text
  | .warn => "WARN " ++ r.text
  | .error => "ERROR " ++ r.text

/-- Answers a call. -/
def answerCall (arguments : List String) : IO UInt32 := do
  let directory ← IO.currentDir
  let home := placeOf ⟨"/"⟩ ⟨directory.toString⟩
  let empty : FileTree := { entries := ∅, home }
  let empty := (List.range (home.length + 1)).foldl (fun t i => t.set (home.take i) .directory) empty
  let files ← (← directory.readDir).foldlM (fun t e => readEntry t home e) empty
  let files ← arguments.foldlM (fun t a => readFile t ⟨a⟩ false) files
  let cache := (StoredCache.cacheDirectory? (← IO.getEnv "XDG_CACHE_HOME") (← IO.getEnv "HOME")).map StoredCache.file
  let files ← match cache with
    | some p => readFile files p false
    | none => pure files
  let search := (((← IO.getEnv "PATH").getD "").splitOn ":").map Path.mk
  let programs := search.flatMap fun d => askedPrograms.map fun name => d / name
  let files ← programs.foldlM (fun t p => readFile t p true) files
  let surroundings : Program.Surroundings Unit := {
    runner := Shell.runner search
    locate := Shell.which search
    cache
    year := toString (← currentYear) }
  let line := (← IO.appPath).toString :: arguments
  let (outcome, w) := (Program.call surroundings line).run { tools := (), files }
  for r in w.log do IO.eprintln (showRemark r)
  for s in w.printed do IO.print s
  for (place, e) in w.files.entries.entries do
    if files.find? place ≠ some e then
      match e with
      | .file content _ => writeEntry place content
      | .directory => IO.FS.createDirAll ("/" ++ String.intercalate "/" place)
  match outcome with
  | .refused .help | .refused .version =>
    IO.println (CommandLine.programName ++ " [options] package.xml...")
    return 0
  | .refused _ =>
    IO.eprintln ("error: invalid command line; see " ++ CommandLine.programName ++ " --help")
    return 2
  | .failed failure =>
    IO.eprintln ("ERROR " ++ failure.message)
    return 1
  | .finished exitCode => return exitCode.toUInt32

end RosRecipes

def main (arguments : List String) : IO UInt32 := RosRecipes.answerCall arguments
