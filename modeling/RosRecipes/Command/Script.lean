import RosRecipes.Text.Search
import RosRecipes.World

/-!
# Scripted commands

A script answers commands without running any program.  Each command gets the answer of the first entry that
fits, and the script keeps a record of all commands.

The directory that follows an argument `-o` may be a temporary one, which a script cannot know.  If it is
absolute, it is written `<tmp>` in the recorded command, and `<tmp>` in the answer stands for it.
-/

namespace RosRecipes.Script

/-- What an entry answers. -/
inductive Answer where
  | failure (status stderr : String)
  /-- Writes files, then answers; the input of the command may follow the given output. -/
  | success (stdout stderr : String) (echoesInput : Bool) (files : List (String × ByteArray))

structure Entry where
  /-- The command line that the entry is for. -/
  line : Option String := none
  /-- The program that the entry is for, if it has no command line. -/
  program : Option String := none
  /-- The directory that the command has to run in. -/
  directory : Option String := none
  /-- The entry answers one command only. -/
  once : Bool := false
  answer : Answer

/-- A command that has been answered. -/
structure Call where
  line : String
  directory : Option Path
  input : Option String
deriving DecidableEq, Repr

structure State where
  entries : List Entry
  calls : List Call := []

/-- The placeholder of a temporary directory. -/
def placeholder : String := "<tmp>"

/-- The directory after an argument `-o`, if it is absolute. -/
def temporaryDirectory? : List String → Option String
  | "-o" :: directory :: rest =>
    if (Path.mk directory).isAbsolute then some directory else temporaryDirectory? (directory :: rest)
  | _ :: rest => temporaryDirectory? rest
  | [] => none

/-- The command line with the placeholder. -/
def shownLine (c : Command) : String :=
  match temporaryDirectory? c.arguments with
  | some directory =>
    ({ c with arguments := c.arguments.map fun a => if a = directory then placeholder else a }).line
  | none => c.line

/-- Does an entry answer a command? -/
def Entry.fits (e : Entry) (c : Command) : Bool :=
  (match e.line with
    | some line => line == shownLine c
    | none => e.program == some c.program) &&
  (e.directory.all fun d => c.directory.map Path.text == some d)

/-- The first entry that fits, and the script after its use. -/
def take? (c : Command) : List Entry → Option (Entry × List Entry)
  | [] => none
  | e :: rest =>
    if e.fits c then some (e, if e.once then rest else e :: rest)
    else (take? c rest).map fun (found, rest) => (found, e :: rest)

/-- The error of a command that failed. -/
def failed (c : Command) (status stderr : String) : Error :=
  .commandFailed (shownLine c) c.shownDirectory status stderr

/-- Writes a file and the directories above it. -/
private def writeFile (files : FileTree) (path : Path) (content : ByteArray) : Except FileFault FileTree := do
  let files ←
    match path.parent? with
    | some above => files.makeDirectories above
    | none => .ok files
  files.write path content

/-- Answers a command by an entry. -/
def Entry.reply (e : Entry) (c : Command) (files : FileTree) : Except Error Output × FileTree :=
  match e.answer with
  | .failure status stderr => (.error (failed c status stderr), files)
  | .success stdout stderr echoesInput written =>
    let expand := fun (text : String) =>
      match temporaryDirectory? c.arguments with
      | some directory => Text.replace placeholder directory text
      | none => text
    let written := written.foldlM (fun files (path, content) => writeFile files ⟨expand path⟩ content) files
    match written with
    | .error fault => (.error (.file fault), files)
    | .ok files =>
      let input := if echoesInput then c.input.getD "" else ""
      (.ok { stdout := expand stdout ++ input, stderr }, files)

/-- Answers commands by a script. -/
def runner : Runner State where
  run c script files :=
    let script := { script with calls := script.calls ++ [⟨shownLine c, c.directory, c.input⟩] }
    match take? c script.entries with
    | none => (.error (failed c "exit status: 127" "unexpected command"), script, files)
    | some (entry, entries) =>
      let (answer, files) := entry.reply c files
      (answer, { script with entries }, files)

end RosRecipes.Script
