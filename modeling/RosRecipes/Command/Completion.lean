import RosRecipes.Command
import RosRecipes.Error

/-!
# Completed programs

What is known of an outside program when it has ended, and the answer that follows.  A program that did not end
well is an error whatever it wrote; if it did, its output has to be a text, and it has to have taken its input.

* `Completion.answer` gives the answer.
-/

namespace RosRecipes

/-- How a program ended. -/
inductive Status where
  | exited (code : Nat)
  | killed (signal : Nat)
deriving DecidableEq, Repr

namespace Status

/-- The names of signals. -/
def signalName? (signal : Nat) : Option String :=
  [(1, "SIGHUP"), (2, "SIGINT"), (3, "SIGQUIT"), (4, "SIGILL"), (5, "SIGTRAP"), (6, "SIGABRT"), (7, "SIGBUS"),
   (8, "SIGFPE"), (9, "SIGKILL"), (10, "SIGUSR1"), (11, "SIGSEGV"), (12, "SIGUSR2"), (13, "SIGPIPE"),
   (14, "SIGALRM"), (15, "SIGTERM"), (16, "SIGSTKFLT"), (24, "SIGXCPU"), (25, "SIGXFSZ"), (26, "SIGVTALRM"),
   (27, "SIGPROF"), (29, "SIGIO"), (30, "SIGPWR"), (31, "SIGSYS")].lookup signal

def message : Status → String
  | exited code => "exit status: " ++ toString code
  | killed signal =>
    "signal: " ++ toString signal ++ ((signalName? signal).map fun name => " (" ++ name ++ ")").getD ""

end Status

/-- What a program left behind. -/
structure Completion where
  status : Status
  stdout : ByteArray
  stderr : ByteArray
  /-- The program took as much of its input as did not fit into the pipe. -/
  tookInput : Bool

/-- The error of a program that could not be started. -/
def Command.notStarted (c : Command) (fault : FileFault) : Error :=
  .commandFailed c.line c.shownDirectory "not started" fault.message

/-- The answer to a command. -/
def Completion.answer (c : Command) (r : Completion) : Except Error Output :=
  let stderr := Text.decodeLossy r.stderr
  if r.status ≠ .exited 0 then
    .error (.commandFailed c.line c.shownDirectory r.status.message (Text.trimmed stderr))
  else if !r.tookInput then .error (.file .brokenPipe)
  else
    match String.fromUTF8? r.stdout, Text.firstFault? r.stdout with
    | some stdout, _ => .ok { stdout, stderr }
    | none, some fault => .error (.invalidOutput c.line (.notText fault))
    | none, none => .error (.file .notText)

end RosRecipes
