import RosRecipes.Shell.Filter
import RosRecipes.Shell.Format

/-!
# Tools

The small programs that scripts rely on.  Some of them are part of the shell, others are installed.

* `Tool.runBuiltin?` and `Tool.runInstalled?` run a tool.
-/

namespace RosRecipes.Shell.Tool

/-- Changes the files, or complains. -/
def change (tool : String) (act : FileTree → Path → Except FileFault FileTree) (names : List String) (p : Process) :
    Process :=
  names.foldl (fun p name =>
    match act p.files ⟨name⟩ with
    | .ok files => { p with files }
    | .error fault => p.complain (tool ++ " '" ++ name ++ "': " ++ Filter.faultText fault) 1) (p.ended 0)

/-- Writes the arguments; options and escapes are known to one of the two tools each. -/
def echo (dialect : Dialect) (arguments : List String) (p : Process) : Process :=
  let options := match dialect with
    | .shell => (arguments.take 1).filter (· = "-n")
    | .installed => arguments.takeWhile fun a => a = "-n" || a = "-e" || a = "-ne" || a = "-en" || a = "-E"
  let has := fun (c : Char) => options.any fun o => o.toList.contains c
  let s := String.intercalate " " (arguments.drop options.length)
  let r := if dialect = .shell || has 'e' then unescape dialect {} s else { bytes := s.toUTF8 }
  ((p.printBytes r.bytes).print (if has 'n' || r.stopped then "" else "\n")).ended 0

/-- Renders a format; complaints begin with the name of the tool. -/
def printf (dialect : Dialect) (lead : String) (arguments : List String) (p : Process) : Process :=
  let arguments := if arguments.head? = some "--" then arguments.tail else arguments
  match arguments, dialect with
  | s :: rest, _ =>
    let r := format dialect s rest
    (r.complaints.foldl (fun p text => p.complain (lead ++ text) r.status) (p.printBytes r.bytes)).ended r.status
  | [], .shell => p.complain (lead ++ "usage: printf format [arg ...]") 2
  | [], .installed => p.complain (lead ++ "missing operand\nTry 'printf --help' for more information.") 1

/-- Reads a line into variables; the last one gets the rest of the line. -/
def read (arguments : List String) (p : Process) : Process :=
  let raw := arguments.contains "-r"
  let names := arguments.filter (· ≠ "-r")
  let keeps := p.bindings.get? "IFS" = some ""
  let (line, ended, p) := p.readLine
  let rec assign (names : List String) (line : List Char) (bindings : Table String String) : Table String String :=
    match names with
    | [] => bindings
    | [name] => bindings.insert name (.ofList (if keeps then line else Text.trim line))
    | name :: rest =>
      let line := line.dropWhile Text.isBlank
      let word := line.takeWhile (!Text.isBlank ·)
      assign rest (line.drop word.length) (bindings.insert name (.ofList word))
  let line := Filter.text line
  let line := if raw then line else line.filter (· ≠ '\\')
  { p with bindings := assign names line p.bindings, status := if ended then 0 else 1 }

/-- Decides a condition. -/
def decideTest (files : FileTree) : List String → Bool
  | ["!", a] => a.isEmpty
  | ["!", a, b] => !decideTest files [a, b]
  | ["!", a, b, c] => !decideTest files [a, b, c]
  | ["-n", s] => !s.isEmpty
  | ["-z", s] => s.isEmpty
  | ["-e", path] => (files.lookup ⟨path⟩).isOk
  | ["-f", path] => files.isFile ⟨path⟩
  | ["-d", path] => files.isDirectory ⟨path⟩
  | ["-x", path] => files.isExecutable ⟨path⟩ || files.isDirectory ⟨path⟩
  | ["-r", path] | ["-w", path] => (files.lookup ⟨path⟩).isOk
  | ["-s", path] => ((files.read ⟨path⟩).toOption.any (0 < ·.size))
  | [a, "=", b] => a == b
  | [a, "!=", b] => a != b
  | [a, "-eq", b] => (numberOf a).1 == (numberOf b).1
  | [a, "-ne", b] => (numberOf a).1 != (numberOf b).1
  | [a, "-lt", b] => decide ((numberOf a).1 < (numberOf b).1)
  | [a, "-le", b] => decide ((numberOf a).1 ≤ (numberOf b).1)
  | [a, "-gt", b] => decide ((numberOf b).1 < (numberOf a).1)
  | [a, "-ge", b] => decide ((numberOf b).1 ≤ (numberOf a).1)
  | [s] => !s.isEmpty
  | _ => false

/-- Decides conditions that are joined by `-a` and `-o`. -/
def decideTests (files : FileTree) (arguments : List String) : Bool :=
  let alternatives := arguments.splitOnP (· == "-o")
  alternatives.any fun parts => (parts.splitOnP (· == "-a")).all (decideTest files)

/-- Goes to a directory. -/
def cd (arguments : List String) (p : Process) : Process :=
  let path := arguments.headD "/"
  match p.files.walk ⟨path⟩, p.files.isDirectory ⟨path⟩ with
  | .ok target, true => { p with files := { p.files with home := target.place } }.ended 0
  | _, _ => p.complain (p.name ++ ": 1: cd: can't cd to " ++ path) 2

/-- Counts from a first number, which is one unless it is given, to a last one. -/
def seq (arguments : List String) (p : Process) : Process :=
  let numbers := arguments.map fun a => (numberOf a).1
  let (first, step, last) := match numbers with
    | [last] => (1, 1, last)
    | [first, last] => (first, 1, last)
    | [first, step, last] => (first, step, last)
    | _ => (1, 1, 0)
  let count := if step = 0 then 0 else ((last - first).tdiv step + 1).toNat
  let count := if (0 < step && last < first) || (step < 0 && first < last) then 0 else count
  let lines := (List.range count).map fun (i : Nat) => toString (first + step * (i : Int)) ++ "\n"
  (p.print (String.join lines)).ended 0

/-- Sets variables by arguments such as `name=value`. -/
def assign (arguments : List String) (p : Process) : Process :=
  (arguments.foldl (fun p argument =>
    match argument.splitOn "=" with
    | name :: value :: more => p.bind name (some (String.intercalate "=" (value :: more)))
    | _ => p) p).ended 0

/-- Sets variables, and shows them to programs. -/
def exportAll (arguments : List String) (p : Process) : Process :=
  let p := assign arguments p
  { p with exported := p.exported ++ arguments.map fun a => (a.splitOn "=").headD "" }

/-- Runs a tool that is both part of the shell and installed. -/
def runCommon? (name : String) (arguments : List String) (p : Process) : Option Process :=
  match name with
  | "true" => some (p.ended 0)
  | "false" => some (p.ended 1)
  | "test" => some (p.ended (if decideTests p.files arguments then 0 else 1))
  | "[" => some (p.ended (if decideTests p.files arguments.dropLast then 0 else 1))
  | "pwd" => some ((p.print (p.files.homePath.text ++ "\n")).ended 0)
  | _ => none

/-- Runs a tool that is part of the shell. -/
def runBuiltin? (name : String) (arguments : List String) (p : Process) : Option Process :=
  match name with
  | ":" | "umask" | "trap" | "wait" => some (p.ended 0)
  | "echo" => some (echo .shell arguments p)
  | "printf" => some (printf .shell (p.name ++ ": 1: printf: ") arguments p)
  | "read" => some (read arguments p)
  | "cd" => some (cd arguments p)
  | "shift" =>
    some ({ p with arguments := p.arguments.drop ((arguments.head?.bind String.toNat?).getD 1) }.ended 0)
  | "export" => some (exportAll arguments p)
  | "local" | "readonly" => some (assign arguments p)
  | "unset" => some ({ p with bindings := arguments.foldl Table.erase p.bindings }.ended 0)
  | name => runCommon? name arguments p

/-- Runs a tool that is installed. -/
def runInstalled? (name : String) (arguments : List String) (p : Process) : Option Process :=
  match name with
  | "sleep" => some (p.ended 0)
  | "echo" => some (echo .installed arguments p)
  | "printf" => some (printf .installed "printf: " arguments p)
  | "seq" => some (seq arguments p)
  | "yes" =>
    let line := if arguments.isEmpty then "y" else String.intercalate " " arguments
    some ({ p with output := p.output.append { forever := some (line ++ "\n").toUTF8 } }.ended 0)
  | "mkdir" =>
    let (options, names) := Filter.letters arguments
    let make := if options.contains 'p' then FileTree.makeDirectories else FileTree.makeDirectory
    some (change "mkdir: cannot create directory" make names p)
  | "touch" =>
    some (change "touch: cannot touch" (fun files path =>
      if (files.lookup path).isOk then .ok files else files.write path .empty) arguments p)
  | "rm" =>
    let (options, names) := Filter.letters arguments
    some (change "rm: cannot remove" (fun files path =>
      match files.removeFile path with
      | .error fault => if options.contains 'f' then .ok files else .error fault
      | done => done) names p)
  | "basename" => some ((p.print (((Path.mk (arguments.headD "")).fileName?.getD "") ++ "\n")).ended 0)
  | "dirname" =>
    let above := ((Path.mk (arguments.headD "")).parent?.map (·.text)).getD "/"
    some ((p.print ((if above.isEmpty then "." else above) ++ "\n")).ended 0)
  | name => (runCommon? name arguments p).or (Filter.run? name arguments p)

/-- The names of the installed tools. -/
def installed : List String :=
  ["sh", "true", "false", "echo", "printf", "test", "[", "pwd", "sleep", "seq", "yes", "mkdir", "touch", "rm",
    "basename", "dirname"] ++ Filter.names

end RosRecipes.Shell.Tool
