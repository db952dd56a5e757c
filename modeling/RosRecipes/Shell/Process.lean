import RosRecipes.Command.Completion
import RosRecipes.FileTree
import RosRecipes.Shell.Node

/-!
# Processes

A process of a small shell: its variables, its streams and the files that it sees.

* `Stream` is what can be read: some bytes, and perhaps others over and over after them.
-/

namespace RosRecipes.Shell

/-- Bytes to read; after them come those of `forever`, again and again. -/
structure Stream where
  bytes : ByteArray := .empty
  forever : Option ByteArray := none

namespace Stream

def ofText (s : String) : Stream := { bytes := s.toUTF8 }

/-- Adds bytes, unless the stream never ends. -/
def push (s : Stream) (more : ByteArray) : Stream :=
  if s.forever.isSome then s else { s with bytes := s.bytes ++ more }

/-- Adds all of another stream. -/
def append (s t : Stream) : Stream :=
  if s.forever.isSome then s else { bytes := s.bytes ++ t.bytes, forever := t.forever }

/-- The first `n` bytes. -/
def take (s : Stream) (n : Nat) : ByteArray :=
  let missing := n - s.bytes.size
  match s.forever with
  | some again =>
    let rounds := if again.size = 0 then 0 else missing / again.size + 1
    let bytes := rounds.fold (fun _ _ bytes => bytes ++ again) s.bytes
    bytes.extract 0 n
  | none => s.bytes.extract 0 n

def drop (s : Stream) (n : Nat) : Stream := { s with bytes := s.bytes.extract n s.bytes.size }

end Stream

structure Process where
  /-- The name that the process has in its messages. -/
  name : String := "sh"
  arguments : List String := []
  bindings : Table String String := ∅
  functions : Table String Node := ∅
  /-- The variables that programs get to see. -/
  exported : List String := []
  /-- The files, with the directory of the process as their home. -/
  files : FileTree
  /-- The directories of programs. -/
  search : List Path
  input : Stream := {}
  output : Stream := {}
  errors : Stream := {}
  /-- The exit code of the last command. -/
  status : Nat := 0
  /-- A command that does not end well ends the script. -/
  strict : Bool := false

/-- Why what follows a command is not run. -/
inductive Ending where
  | exit
  | signal (number : Nat)
  /-- The function ends. -/
  | returned
  /-- The loop ends, or its next round begins. -/
  | leftLoop
  | nextRound
deriving DecidableEq, Repr

namespace Process

def print (p : Process) (s : String) : Process := { p with output := p.output.push s.toUTF8 }

def printBytes (p : Process) (bytes : ByteArray) : Process := { p with output := p.output.push bytes }

/-- Writes a message, and sets the exit code. -/
def complain (p : Process) (message : String) (status : Nat) : Process :=
  { p with errors := p.errors.push (message ++ "\n").toUTF8, status }

/-- Sets a variable, or gives it back its former value. -/
def bind (p : Process) (name : String) (value : Option String) : Process :=
  { p with bindings := match value with
    | some s => p.bindings.insert name s
    | none => p.bindings.erase name }

def ended (p : Process) (status : Nat) : Process := { p with status }

/-- Takes all that can be read; what never ends stays. -/
def readAll (p : Process) : ByteArray × Process := (p.input.bytes, { p with input := p.input.drop p.input.bytes.size })

/-- Takes a line, without its ending, and tells whether it was ended. -/
def readLine (p : Process) : ByteArray × Bool × Process :=
  let line := p.input.bytes.toList.takeWhile (· ≠ 10)
  let ended := line.length < p.input.bytes.size
  (⟨line.toArray⟩, ended, { p with input := p.input.drop (line.length + 1) })

end Process

end RosRecipes.Shell
