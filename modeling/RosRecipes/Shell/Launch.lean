import RosRecipes.Shell.Evaluation
import RosRecipes.World

/-!
# Launching programs

Programs are started in a directory of the file tree, with their input in a pipe.  A program that ends before it
has taken all of its input breaks the pipe, unless the rest fits into the buffer of the pipe.

* `launch` starts a program, `runner` answers commands that way, `which` tells where a program is.
-/

namespace RosRecipes.Shell

/-- The number of bytes that a pipe holds. -/
def pipeSize : Nat := 65536

/-- The number of steps that a script may be deep. -/
def depth : Nat := 1000000

/-- The file of a program. -/
def which (search : List Path) (name : String) (files : FileTree) : Option Path :=
  (locate search files name).toOption.map Program.path

/-- The path of the interpreter that the first line of a script names. -/
def interpreter? (content : ByteArray) : Option String :=
  match Filter.text content with
  | '#' :: '!' :: rest => (Text.words (rest.takeWhile (· ≠ '\n'))).head?.map String.ofList
  | _ => none

/-- Is the interpreter a shell? -/
def isShell (interpreter : String) : Bool :=
  ["/bin/sh", "/usr/bin/sh", "/bin/bash", "/usr/bin/bash", "/bin/dash", "/usr/bin/env"].contains interpreter

/-- The program of a command.  A script has to name its interpreter, which has to exist. -/
def programOf (search : List Path) (files : FileTree) (name : String) : Except FileFault Program := do
  let program ← locate search files name
  match program with
  | .script _ content =>
    match interpreter? content with
    | none => throw .notExecutable
    | some interpreter => if isShell interpreter then return program else locate search files interpreter
  | .tool .. => return program

/-- The tree as a program in a directory sees it. -/
def enter (files : FileTree) (directory : Option Path) : Except FileFault FileTree :=
  match directory with
  | none => .ok files
  | some d => do
    match ← files.lookup d with
    | .directory => return { files with home := (← files.walk d).place }
    | .file .. => throw .notADirectory

/-- Refuses texts that no program can be given. -/
def checkTexts (c : Command) : Except FileFault Unit :=
  let texts := c.program :: c.arguments ++ (c.directory.map (·.text)).toList
  if texts.any (·.toList.contains '\x00') then .error .zeroByteInCommand else .ok ()

/-- Starts the program of a command and waits for its end. -/
def launch (search : List Path) (c : Command) (files : FileTree) : Except FileFault Completion × FileTree :=
  match (do
    checkTexts c
    let inner ← enter files c.directory
    return (inner, ← programOf search inner c.program)) with
  | .error fault => (.error fault, files)
  | .ok (inner, program) =>
    let p : Process := { files := inner, search, input := .ofText (c.input.getD "") }
    let (p, ending) := runProgram (fun n p => evaluate n p depth) program c.arguments p
    let status := match ending with
      | some (.signal n) => Status.killed n
      | _ => Status.exited p.status
    (.ok {
      status
      stdout := p.output.bytes
      stderr := p.errors.bytes
      tookInput := p.input.bytes.size ≤ pipeSize }, { p.files with home := files.home })

/-- Answers commands by the programs in some directories. -/
def runner (search : List Path) : Runner Unit where
  run c _ files :=
    match launch search c files with
    | (.error fault, files) => (.error (c.notStarted fault), (), files)
    | (.ok completion, files) => (completion.answer c, (), files)

end RosRecipes.Shell
