import RosRecipes.Shell.Expansion

/-!
# Redirecting streams

A command may read from a file or from a document in the script, and its outputs may go to files or to each other.

* `redirectAll` opens the redirections of a command, `send` delivers what it wrote.
-/

namespace RosRecipes.Shell

/-- Where the output of a command goes. -/
inductive Sink where
  | output
  | errors
  | nowhere
  | file (path : Path)

/-- What redirections make of the streams of a command. -/
structure Plumbing where
  output : Sink := .output
  errors : Sink := .errors
  input : Option Stream := none

/-- The sink of a descriptor. -/
def Plumbing.sink (s : Plumbing) (descriptor : String) : Sink :=
  match descriptor with
  | "1" => s.output
  | "2" => s.errors
  | _ => .nowhere

def Plumbing.setSink (s : Plumbing) (descriptor : Nat) (sink : Sink) : Plumbing :=
  match descriptor with
  | 1 => { s with output := sink }
  | 2 => { s with errors := sink }
  | _ => s

/-- Opens the target of a redirection. -/
def redirect (p : Process) (s : Plumbing) (r : Redirection) (target : String) : Except String (Process × Plumbing) :=
  match r.operator with
  | "<<" => .ok (p, { s with input := some (.ofText target) })
  | "<" =>
    match Filter.source? p target with
    | .ok input => .ok (p, { s with input := some input })
    | .error _ => .error ("cannot open " ++ target ++ ": No such file")
  | "<&" => .ok (p, if target = "-" then { s with input := some {} } else s)
  | ">&" => .ok (p, s.setSink r.descriptor (if target = "-" then .nowhere else s.sink target))
  | operator =>
    match target with
    | "/dev/null" => .ok (p, s.setSink r.descriptor .nowhere)
    | "/dev/stdout" => .ok (p, s.setSink r.descriptor s.output)
    | "/dev/stderr" => .ok (p, s.setSink r.descriptor s.errors)
    | target =>
      let old := if operator = ">>" then (p.files.read ⟨target⟩).toOption.getD .empty else .empty
      match p.files.write ⟨target⟩ old with
      | .ok files => .ok ({ p with files }, s.setSink r.descriptor (.file ⟨target⟩))
      | .error .notFound => .error ("cannot create " ++ target ++ ": Directory nonexistent")
      | .error fault => .error ("cannot create " ++ target ++ ": " ++ Filter.faultText fault)

/-- Opens all redirections, from left to right. -/
def redirectAll (capture : Capture) (p : Process) (rs : List Redirection) : Process × Except String Plumbing :=
  rs.foldl (fun (p, state) r =>
    match state with
    | .error e => (p, .error e)
    | .ok s =>
      let (p, target) := joined capture p r.target
      match redirect p s r target with
      | .ok (p, s) => (p, .ok s)
      | .error e => (p, .error e)) (p, .ok {})

/-- Sends a stream to its sink. -/
def send (p : Process) (sink : Sink) (s : Stream) : Process :=
  match sink with
  | .output => { p with output := p.output.append s }
  | .errors => { p with errors := p.errors.append s }
  | .nowhere => p
  | .file path =>
    let old := (p.files.read path).toOption.getD .empty
    { p with files := (p.files.write path (old ++ s.bytes)).toOption.getD p.files }

end RosRecipes.Shell
