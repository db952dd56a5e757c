import RosRecipes.Shell.Program
import RosRecipes.Shell.Redirection

/-!
# Running scripts

A script runs in a process, which it changes.

* `runNode` runs a command by running its parts, and `evaluate` runs a script of some depth that way.
-/

namespace RosRecipes.Shell

/-- What remains of a command: the process, and how it was ended, if it was. -/
abbrev Ended := Process × Option Ending

/-- The signal that an argument of `kill` names. -/
def signalOf (s : String) : Option Nat :=
  let name := if s.startsWith "SIG" then s else "SIG" ++ s
  s.toNat?.or ((List.range 32).find? fun n => Status.signalName? n == some name)

/-- Sends a signal, to the shell itself or to nobody. -/
def kill (p : Process) (arguments : List String) : Ended :=
  let (signal, targets) := match arguments with
    | "-s" :: name :: rest => ((signalOf name).getD 15, rest)
    | option :: rest =>
      if option.startsWith "-" then ((signalOf (String.ofList (option.toList.drop 1))).getD 15, rest)
      else (15, option :: rest)
    | [] => (15, [])
  if targets.contains ownNumber then
    if signal = 0 then (p.ended 0, none) else (p, some (.signal signal))
  else (p.complain (p.name ++ ": 1: kill: No such process") 1, none)

/-- Ends a script, with the exit code that is given or with that of the last command. -/
def exit (line : Nat) (p : Process) (arguments : List String) : Process :=
  match arguments.head? with
  | none => p
  | some s =>
    match s.toNat? with
    | some code => p.ended (code % 256)
    | none => p.complain (p.name ++ ": " ++ toString line ++ ": exit: Illegal number: " ++ s) 2

/-- Sets the arguments of the script, or makes it strict. -/
def set (p : Process) (arguments : List String) : Process :=
  match arguments with
  | "--" :: arguments => { p with arguments }.ended 0
  | options => { p with strict := p.strict || options.any fun o => o.startsWith "-" && o.toList.contains 'e' }.ended 0

/-- Does the end of a command in a strict script count, even if more commands follow? -/
def isChecked : Node → Bool
  | .simple .. | .redirected .. | .pipe .. | .apart _ => true
  | _ => false

/-- A subshell: its streams and files are kept, its variables and its end are not. -/
def leave (p : Process) (inner : Ended) : Ended :=
  let (q, ending) := inner
  let p := { p with files := { q.files with home := p.files.home }, input := q.input, output := q.output,
                    errors := q.errors, status := q.status }
  (p, match ending with | some (.signal n) => some (.signal n) | _ => none)

/-- Runs a script as a program of its own. -/
def runScript (run : Node → Process → Ended) (strict : Bool) (name : String) (script : List Char)
    (arguments : List String) (p : Process) : Ended :=
  let bindings : Table String String := ⟨p.bindings.entries.filter fun (name, _) => p.exported.contains name⟩
  match Node.parse? script with
  | some n => leave p (run n { p with name, arguments, bindings, functions := ∅, status := 0, strict })
  | none => (p.complain (name ++ ": 1: Syntax error") 2, none)

/-- Runs a shell by its own arguments. -/
def runShell (run : Node → Process → Ended) (arguments : List String) (p : Process) : Ended :=
  match arguments with
  | ["-c"] => (p.complain "sh: 0: -c requires an argument" 2, none)
  | "-c" :: script :: rest => runScript run false (rest.headD "sh") script.toList rest.tail p
  | "-ec" :: script :: rest | "-e" :: "-c" :: script :: rest =>
    runScript run true (rest.headD "sh") script.toList rest.tail p
  | file :: rest =>
    match p.files.read ⟨file⟩ with
    | .ok content => runScript run false file (Text.decodeLossy content).toList rest p
    | .error _ => (p.complain ("sh: 0: cannot open " ++ file ++ ": No such file") 2, none)
  | [] =>
    let (bytes, p) := p.readAll
    runScript run false "sh" (Text.decodeLossy bytes).toList [] p

/-- Runs a program that has been found. -/
def runProgram (run : Node → Process → Ended) (program : Program) (arguments : List String) (p : Process) : Ended :=
  match program with
  | .script path content => runScript run false path.text (Text.decodeLossy content).toList arguments p
  | .tool _ "sh" => runShell run arguments p
  | .tool _ name => ((Tool.runInstalled? name arguments p).getD (p.ended 127), none)

/-- Runs a function: it has arguments of its own. -/
def runFunction (run : Node → Process → Ended) (body : Node) (arguments : List String) (p : Process) : Ended :=
  let (q, ending) := run body { p with arguments }
  ({ q with arguments := p.arguments }, if ending = some .returned then none else ending)

/-- Runs a program or a tool by its name. -/
def runName (run : Node → Process → Ended) (line : Nat) (name : String) (arguments : List String) (p : Process) :
    Ended :=
  match Tool.runBuiltin? name arguments p with
  | some p => (p, none)
  | none =>
    match locate p.search p.files name with
    | .ok program =>
      match runProgram run program arguments p with
      | (p, some (.signal n)) => (p.ended (128 + n), none)
      | (p, _) => (p, none)
    | .error .permissionDenied =>
      (p.complain (p.name ++ ": " ++ toString line ++ ": " ++ name ++ ": Permission denied") 126, none)
    | .error _ => (p.complain (p.name ++ ": " ++ toString line ++ ": " ++ name ++ ": not found") 127, none)

/-- Runs the words of a command. -/
def runWords (run : Node → Process → Ended) (line : Nat) (p : Process) : List String → Ended
  | [] => (p, none)
  | "exit" :: arguments => (exit line p arguments, some .exit)
  | "return" :: arguments => (exit line p arguments, some .returned)
  | "break" :: _ => (p.ended 0, some .leftLoop)
  | "continue" :: _ => (p.ended 0, some .nextRound)
  | "kill" :: arguments => kill p arguments
  | "set" :: arguments => (set p arguments, none)
  | "eval" :: arguments =>
    match Node.parse? (String.intercalate " " arguments).toList with
    | some n => run n p
    | none => (p.complain (p.name ++ ": 1: Syntax error") 2, some .exit)
  | "exec" :: [] => (p, none)
  | "command" :: "-v" :: name :: _ =>
    match locate p.search p.files name with
    | .ok program => ((p.print (program.path.text ++ "\n")).ended 0, none)
    | .error _ => (p.ended 127, none)
  | "exec" :: name :: arguments | "command" :: name :: arguments => runName run line name arguments p
  | name :: arguments =>
    match p.functions.get? name with
    | some body => runFunction run body arguments p
    | none => runName run line name arguments p

/-- The redirections of a command that is nothing but a lasting redirection of the shell's own streams. -/
def lastingRedirections? : Node → Option (List Redirection)
  | .redirected (.simple _ [] [w]) redirections => if plain? w = some "exec" then some redirections else none
  | _ => none

/-- Takes what a script prints, without the line endings at its end. -/
def capturing (run : Node → Process → Ended) : Capture := fun script p =>
  match Node.parse? script with
  | none => (p, [])
  | some n =>
    let (q, _) := leave p (run n { p with output := {} })
    let text := Filter.text q.output.bytes
    ({ q with output := p.output }, (text.reverse.dropWhile (· = '\n')).reverse)

/-- Sets variables, from left to right. -/
def assignAll (capture : Capture) (assignments : List (String × Word)) (p : Process) : Process :=
  assignments.foldl (fun p (name, w) =>
    let (p, value) := joined capture p w
    p.bind name (some value)) p

/-- Gives variables back the values that they had. -/
def giveBack (old : List (String × Option String)) (p : Process) : Process :=
  old.foldl (fun p (name, value) => p.bind name value) p

/-- Runs a command with assignments, which hold for it alone unless there are no words. -/
def runSimple (run : Node → Process → Ended) (line : Nat) (assignments : List (String × Word)) (words : List Word)
    (p : Process) : Ended :=
  let capture := capturing run
  let old := assignments.map fun (name, _) => (name, p.bindings.get? name)
  let p := assignAll capture assignments (if words.isEmpty then p.ended 0 else p)
  let (p, words) := expandAll capture p words
  let exported := p.exported
  let (p, ending) := runWords run line { p with exported := exported ++ assignments.map (·.1) } words
  let p :=
    if words.isEmpty then { p with exported }
    else if words.head? = some "export" then p
    else giveBack old { p with exported }
  (p, if words.head? = some "exec" && 1 < words.length then ending.or (some .exit) else ending)

/-- Runs a command whose streams are redirected. -/
def runRedirected (run : Node → Process → Ended) (body : Node) (redirections : List Redirection) (p : Process) :
    Ended :=
  match redirectAll (capturing run) p redirections with
  | (p, .error e) => (p.complain (p.name ++ ": 1: " ++ e) 2, none)
  | (p, .ok s) =>
    let (q, ending) := run body { p with input := s.input.getD p.input, output := {}, errors := {} }
    let input := if s.input.isSome then p.input else q.input
    let back := { q with input, output := p.output, errors := p.errors }
    (send (send back s.output q.output) s.errors q.errors, ending)

/-- Runs a command, and another one unless the first one was ended. -/
def runAfter (run : Node → Process → Ended) (first : Node) (next : Process → Ended) (p : Process) : Ended :=
  match run first p with
  | (p, none) => next p
  | stopped => stopped

/-- Runs two commands, the second one on what the first one writes. -/
def runPipe (run : Node → Process → Ended) (first second : Node) (p : Process) : Ended :=
  match leave p (run first { p with output := {} }) with
  | (q, some ending) => (q, some ending)
  | (q, none) =>
    let (r, ending) := leave p (run second { q with input := q.output, output := p.output })
    ({ r with input := q.input }, ending)

/-- Runs the first branch that has a pattern that fits. -/
def runChoice (run : Node → Process → Ended) (subject : Word) (branches : List (List Word × Node)) (p : Process) :
    Ended :=
  let capture := capturing run
  let (p, s) := joined capture p subject
  let text := s.toList
  let chosen := branches.find? fun (patterns, _) => patterns.any fun w =>
    let cs := pattern capture p w
    fits cs text (cs.length + text.length + 1)
  match chosen with
  | some (_, body) => run body (p.ended 0)
  | none => (p.ended 0, none)

/-- Runs a body for each item, up to the round that ends the loop. -/
def runEach (run : Node → Process → Ended) (name : String) (items : List String) (body : Node) (p : Process) : Ended :=
  let (p, ending) := items.foldl (fun (p, ending) item =>
    if ending.isSome then (p, ending)
    else
      match run body (p.bind name (some item)) with
      | (p, some .nextRound) => (p, none)
      | round => round) (p.ended 0, none)
  (p, if ending = some .leftLoop then none else ending)

/-- Runs a command, whose parts are run by `run`. -/
def runNode (run : Node → Process → Ended) (n : Node) (p : Process) : Ended :=
  match n with
  | .nothing => (p, none)
  | .simple line assignments words => runSimple run line assignments words p
  | .function name body => ({ p with functions := p.functions.insert name body }.ended 0, none)
  | .redirected body redirections => runRedirected run body redirections p
  | .sequence first second =>
    match lastingRedirections? first with
    | some redirections => run (.redirected second redirections) p
    | none =>
      runAfter run first
        (fun p => if p.strict && p.status ≠ 0 && isChecked first then (p, some .exit) else run second p) p
  | .both first second => runAfter run first (fun p => if p.status = 0 then run second p else (p, none)) p
  | .either first second => runAfter run first (fun p => if p.status = 0 then (p, none) else run second p) p
  | .negated body => runAfter run body (fun p => (p.ended (if p.status = 0 then 1 else 0), none)) p
  | .apart body => leave p (run body p)
  | .pipe first second => runPipe run first second p
  | .choice subject branches => runChoice run subject branches p
  | .branch condition yes no =>
    runAfter run condition (fun p => if p.status = 0 then run yes p else run no (p.ended 0)) p
  | .loop wanted condition body =>
    let round := fun (p : Process) =>
      if (p.status == 0) == wanted then
        match run body p with
        | (p, none) | (p, some .nextRound) => run (.loop wanted condition body) p
        | (p, some .leftLoop) => (p, none)
        | stopped => stopped
      else (p.ended 0, none)
    runAfter run condition round p
  | .each name words body =>
    match words with
    | some words =>
      let (p, items) := expandAll (capturing run) p words
      runEach run name items body p
    | none => runEach run name p.arguments body p

/-- Runs a script in a process. -/
def evaluate (n : Node) (p : Process) : (fuel : Nat) → Ended
  | 0 => (p.ended 2, some .exit)
  | fuel + 1 => runNode (fun n p => evaluate n p fuel) n p

end RosRecipes.Shell
