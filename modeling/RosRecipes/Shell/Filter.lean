import RosRecipes.Shell.Pattern
import RosRecipes.Shell.Process
import RosRecipes.Text.Blank

/-!
# Filters

The tools that make an output of their input, or of the files that they are given.

* `Filter.onFiles` runs a filter on files, `Filter.run?` runs the filter of a name.
-/

namespace RosRecipes.Shell.Filter

/-- What can be read from a file. -/
def source? (p : Process) (file : String) : Except FileFault Stream :=
  match file with
  | "-" | "/dev/stdin" => .ok p.input
  | "/dev/null" => .ok {}
  | "/dev/zero" => .ok { forever := some ⟨#[0]⟩ }
  | file => (p.files.read ⟨file⟩).map ({ bytes := · })

/-- The text of a fault without its number. -/
def faultText (fault : FileFault) : String := (fault.message.splitOn " (os error").headD ""

/-- Runs a filter on its input, or on some files one after the other.  The complaint about a file that cannot be
read is worded by `lead`, which says what was tried with the file. -/
def onFiles (lead : String → String) (failure : Nat) (filter : Process → Process) (files : List String) (p : Process) :
    Process :=
  if files.isEmpty then filter p
  else
    let (q, input) := files.foldl (fun (q, input) file =>
      match source? p file with
      | .ok s => (q, input.append s)
      | .error fault => (q.complain (lead file ++ ": " ++ faultText fault) failure, input)) (p.ended 0, ({} : Stream))
    let r := filter { q with input }
    { r with
      input := if files.contains "-" then {} else p.input
      status := if q.status = 0 then r.status else q.status }

/-- The wording of most tools. -/
def named (tool file : String) : String := tool ++ ": " ++ file

/-- The wording of the tools that read one file after the other. -/
def opening (tool file : String) : String := tool ++ ": cannot open '" ++ file ++ "' for reading"

/-! ### Lines -/

/-- The text of all bytes, read as it is. -/
def text (bytes : ByteArray) : List Char := (Text.decodeLossy bytes).toList

/-- Takes all lines, and tells whether the last one was ended. -/
def takeLines (p : Process) : List (List Char) × Bool × Process :=
  let (bytes, p) := p.readAll
  let lines := Text.split '\n' (text bytes)
  let ended := lines.getLast? = some []
  (if ended then lines.dropLast else lines, ended, p)

/-- Writes lines, the last of which may be without its ending. -/
def putLines (ended : Bool) (lines : List (List Char)) (p : Process) : Process :=
  let s := Text.join ['\n'] lines
  (p.print (.ofList (if ended && !lines.isEmpty then s ++ ['\n'] else s))).ended 0

/-- Changes the list of lines. -/
def onLines (change : List (List Char) → List (List Char)) (p : Process) : Process :=
  let (lines, ended, p) := takeLines p
  putLines ended (change lines) p

/-- Changes the list of lines; all of them are ended in the output. -/
def onEndedLines (change : List (List Char) → List (List Char)) (p : Process) : Process :=
  let (lines, _, p) := takeLines p
  putLines true (change lines) p

/-! ### Options -/

/-- The arguments that are options of one letter, and the others. -/
def letters (arguments : List String) : List Char × List String :=
  let isOption := fun (a : String) => a.startsWith "-" && 1 < a.length
  let options := arguments.takeWhile isOption
  let options := options.takeWhile (· ≠ "--")
  let rest := arguments.drop options.length
  (options.flatMap fun o => o.toList.drop 1, if rest.head? = some "--" then rest.tail else rest)

/-- A count after an option, or behind the letter of the option. -/
def count? (letter : String) : List String → Option (Nat × List String)
  | option :: rest =>
    if option = "-" ++ letter then do
      let n ← (← rest.head?).toNat?
      return (n, rest.tail)
    else if option.startsWith ("-" ++ letter) then do
      return (← (String.ofList (option.toList.drop 2)).toNat?, rest)
    else none
  | [] => none

/-! ### The filters -/

/-- Numbers the lines. -/
def numbered (lines : List (List Char)) : List (List Char) :=
  lines.zipIdx.map fun (line, i) =>
    let number := Nat.toDigits 10 (i + 1)
    List.replicate (6 - number.length) ' ' ++ number ++ '\t' :: line

def cat (p : Process) : Process := { p with output := p.output.append p.input, input := {}, status := 0 }

/-- The first lines of some bytes. -/
def firstLines (n : Nat) (bytes : List UInt8) : List UInt8 :=
  match n, bytes with
  | 0, _ => []
  | _, [] => []
  | n + 1, b :: rest => b :: firstLines (if b = 10 then n else n + 1) rest

/-- Passes the first bytes. -/
def headBytes (n : Nat) (p : Process) : Process :=
  ({ p with input := p.input.drop n }.printBytes (p.input.take n)).ended 0

/-- Passes the first lines. -/
def headLines (n : Nat) (p : Process) : Process :=
  let bytes := firstLines n (p.input.take (p.input.bytes.size + 4096 * (n + 1))).toList
  headBytes bytes.length p

/-- The count of an option such as `-3`. -/
def shortCount? : List String → Option (Nat × List String)
  | option :: rest => do
    let '-' :: digits := option.toList | none
    return (← (String.ofList digits).toNat?, rest)
  | [] => none

def head (arguments : List String) : Process → Process :=
  match count? "c" arguments with
  | some (n, files) => onFiles (opening "head") 1 (headBytes n) files
  | none =>
    let (n, files) := ((count? "n" arguments).or (shortCount? arguments)).getD (10, arguments)
    onFiles (opening "head") 1 (headLines n) files

def tail (arguments : List String) : Process → Process :=
  match count? "c" arguments with
  | some (n, files) => onFiles (opening "tail") 1 (fun p =>
      let (bytes, p) := p.readAll
      (p.printBytes (bytes.extract (bytes.size - n) bytes.size)).ended 0) files
  | none =>
    match arguments with
    | "-n" :: start :: files =>
      match start.toList with
      | '+' :: digits =>
        let n := (String.ofList digits).toNat?.getD 1
        onFiles (opening "tail") 1 (onLines (·.drop (n - 1))) files
      | _ =>
        let n := start.toNat?.getD 10
        onFiles (opening "tail") 1 (onLines fun lines => lines.drop (lines.length - n)) files
    | arguments =>
      let (n, files) := ((count? "n" arguments).or (shortCount? arguments)).getD (10, arguments)
      onFiles (opening "tail") 1 (onLines fun lines => lines.drop (lines.length - n)) files

/-- Counts lines, words, characters and bytes. -/
def wc (arguments : List String) : Process → Process :=
  let (options, files) := letters arguments
  onFiles (named "wc") 1 (fun p =>
    let (bytes, p) := p.readAll
    let lines := (bytes.toList.filter (· = 10)).length
    let words := (Text.words (text bytes)).length
    let all := options.isEmpty
    let counts := [('l', lines), ('w', words), ('m', (text bytes).length), ('c', bytes.size)].filter fun (letter, _) =>
      options.contains letter || (all && letter ≠ 'm')
    let width := if counts.length = 1 then 0 else if files.isEmpty then 7 else (toString bytes.size).length
    let shown := counts.map fun (_, n) =>
      let s := toString n
      String.ofList (List.replicate (width - s.length) ' ') ++ s
    (p.print (String.intercalate " " (shown ++ files) ++ "\n")).ended 0) files

/-! ### Editing lines -/

/-- The lines that an edit is for. -/
inductive Address where
  | every
  | line (n : Nat)
  | last
  | having (e : Expression)

/-- An edit of a line. -/
inductive Edit where
  | substitute (s : Substitution)
  | delete
  | print
  | insert (line : List Char)
  | append (line : List Char)

def Address.fits (a : Address) (number count : Nat) (line : List Char) : Bool :=
  match a with
  | .every => true
  | .line n => number = n
  | .last => number = count
  | .having e => e.occursIn line

/-- Reads an edit with its address. -/
def Edit.parse? (command : List Char) : Option (Address × Edit) := do
  let command := Text.trim command
  let (address, command) ← match command with
    | '$' :: rest => some (Address.last, rest)
    | '/' :: rest =>
      let e := rest.takeWhile (· ≠ '/')
      some (.having (.ofList e), rest.drop (e.length + 1))
    | command =>
      let digits := command.takeWhile Char.isDigit
      match (String.ofList digits).toNat? with
      | some n => some (.line n, command.drop digits.length)
      | none => some (.every, command)
  let content := fun (rest : List Char) =>
    match rest with
    | '\\' :: '\n' :: line => line
    | '\\' :: line => line
    | line => line.dropWhile (· = ' ')
  match command with
  | ['d'] => return (address, .delete)
  | ['p'] => return (address, .print)
  | 'i' :: rest => return (address, .insert (content rest))
  | 'a' :: rest => return (address, .append (content rest))
  | command => return (address, .substitute (← Substitution.parse? command))

/-- Runs edits on a line: the lines that are written for it. -/
def Edit.onLine (edits : List (Address × Edit)) (silent : Bool) (number count : Nat) (line : List Char) :
    List (List Char) :=
  let rec go (before : List (List Char)) (line : List Char) (after : List (List Char)) :
      List (Address × Edit) → List (List Char)
    | [] => before ++ (if silent then [] else [line]) ++ after
    | (address, edit) :: rest =>
      if !address.fits number count line then go before line after rest
      else
        match edit with
        | .substitute s => go before (s.apply line) after rest
        | .delete => before ++ after
        | .print => go (before ++ [line]) line after rest
        | .insert more => go (before ++ [more]) line after rest
        | .append more => go before line (after ++ [more]) rest
  go [] line [] edits

/-- Edits lines.  The scripts stand after the options `-e`, or else the first argument is the only one. -/
def sed (arguments : List String) : Process → Process :=
  let rec scripts (silent : Bool) (found : List String) : List String → Bool × List String × List String
    | "-n" :: rest => scripts true found rest
    | "-e" :: script :: rest => scripts silent (found ++ [script]) rest
    | rest =>
      match found, rest with
      | [], script :: rest => (silent, [script], rest)
      | found, rest => (silent, found, rest)
  let (silent, found, files) := scripts false [] arguments
  let edits := found.flatMap fun script => Text.split ';' script.toList
  match edits.mapM Edit.parse? with
  | some edits =>
    onFiles (fun file => "sed: can't read " ++ file) 2 (onLines fun lines =>
      (lines.zipIdx.map fun (line, i) => Edit.onLine edits silent (i + 1) lines.length line).flatten) files
  | none => fun p => p.complain "sed: -e expression #1, char 1: unknown command" 1

/-- Looks for lines. -/
def grep (arguments : List String) (p : Process) : Process :=
  let (options, rest) := letters arguments
  match rest with
  | [] => p.complain "Usage: grep [OPTION]... PATTERNS [FILE]..." 2
  | wanted :: files =>
    let has := fun (c : Char) => options.contains c
    let fold := fun (cs : List Char) => if has 'i' then cs.map Char.toLower else cs
    let wanted := fold wanted.toList
    let e : Expression := if has 'F' then .exactly wanted else .ofList wanted
    let e := if has 'x' then { e with atStart := true, atEnd := true } else e
    let filter := fun (p : Process) =>
      let (lines, _, p) := takeLines p
      let kept := lines.zipIdx.filter fun (line, _) => e.occursIn (fold line) != has 'v'
      let p :=
        if has 'q' then p
        else if has 'c' then p.print (toString kept.length ++ "\n")
        else if has 'n' then putLines true (kept.map fun (line, i) => Nat.toDigits 10 (i + 1) ++ ':' :: line) p
        else putLines true (kept.map (·.1)) p
      p.ended (if kept.isEmpty then 1 else 0)
    onFiles (named "grep") 2 filter files p

/-- The lines without repetitions of neighbours. -/
def unrepeated : List (List Char) → List (List Char)
  | a :: b :: rest => if a = b then unrepeated (b :: rest) else a :: unrepeated (b :: rest)
  | lines => lines

/-- The number at the start of a line. -/
def leadingInt (line : List Char) : Int :=
  match line.dropWhile Text.isBlank with
  | '-' :: digits => -((String.ofList (digits.takeWhile Char.isDigit)).toNat?.getD 0 : Nat)
  | digits => ((String.ofList (digits.takeWhile Char.isDigit)).toNat?.getD 0 : Nat)

def sort (arguments : List String) : Process → Process :=
  let (options, files) := letters arguments
  onFiles (fun file => "sort: cannot read: " ++ file) 2 (onEndedLines fun lines =>
    let byText := fun (a b : List Char) => decide (String.ofList a ≤ String.ofList b)
    let inOrder := fun (a b : List Char) =>
      if options.contains 'n' && leadingInt a ≠ leadingInt b then decide (leadingInt a < leadingInt b) else byText a b
    let lines := lines.mergeSort inOrder
    let lines := if options.contains 'r' then lines.reverse else lines
    if options.contains 'u' then unrepeated lines else lines) files

/-- Passes one column of each line. -/
def cut (arguments : List String) : Process → Process :=
  let value? := fun (letter : String) => arguments.zipIdx.findSome? fun (a, i) =>
    if a = "-" ++ letter then arguments[i + 1]?
    else if a.startsWith ("-" ++ letter) then some (String.ofList (a.toList.drop 2))
    else none
  let separator := ((value? "d").bind (·.toList.head?)).getD '\t'
  let column := ((value? "f").bind String.toNat?).getD 1
  onLines fun lines => lines.map fun line =>
    if line.contains separator then (Text.split separator line)[column - 1]?.getD [] else line

/-! ### Characters -/

/-- The characters of a class. -/
def classOf? (name : String) : Option (List Char) :=
  let range := fun (a b : Char) => (List.range (b.toNat + 1 - a.toNat)).map fun i => Char.ofNat (a.toNat + i)
  match name with
  | "lower" => some (range 'a' 'z')
  | "upper" => some (range 'A' 'Z')
  | "digit" => some (range '0' '9')
  | "alpha" => some (range 'A' 'Z' ++ range 'a' 'z')
  | "alnum" => some (range '0' '9' ++ range 'A' 'Z' ++ range 'a' 'z')
  | "space" => some ['\t', '\n', '\x0b', '\x0c', '\r', ' ']
  | "blank" => some ['\t', ' ']
  | _ => none

/-- The characters of a set such as `a-z`. -/
def expandSet (cs : List Char) : (fuel : Nat) → List Char
  | 0 => []
  | fuel + 1 =>
    match cs with
    | '[' :: ':' :: rest =>
      let name := rest.takeWhile (· ≠ ':')
      match classOf? (.ofList name) with
      | some set => set ++ expandSet (rest.drop (name.length + 2)) fuel
      | none => '[' :: expandSet (':' :: rest) fuel
    | '\\' :: c :: rest =>
      let c := ([('n', '\n'), ('t', '\t'), ('r', '\r'), ('0', '\x00')].lookup c).getD c
      c :: expandSet rest fuel
    | first :: '-' :: last :: rest =>
      (List.range (last.toNat + 1 - first.toNat)).map (fun i => Char.ofNat (first.toNat + i)) ++ expandSet rest fuel
    | c :: rest => c :: expandSet rest fuel
    | [] => []

/-- Makes one character of each run of a character. -/
def squeezed (set : List Char) : List Char → List Char
  | a :: b :: rest => if a = b && set.contains a then squeezed set (b :: rest) else a :: squeezed set (b :: rest)
  | cs => cs

/-- Replaces, drops or squeezes characters. -/
def tr (arguments : List String) (p : Process) : Process :=
  let (options, sets) := letters arguments
  let sets := sets.map fun s => expandSet s.toList (s.length + 1)
  let among := fun (set : List Char) (c : Char) => set.contains c != (options.contains 'c' || options.contains 'C')
  let change? : Option (List Char → List Char) :=
    match sets with
    | [set] =>
      if options.contains 'd' then some (·.filter (!among set ·))
      else if options.contains 's' then some (squeezed set)
      else none
    | [old, new] => some fun cs =>
      let cs := cs.map fun c =>
        if options.contains 'c' then (if old.contains c then c else new.getLast?.getD c)
        else match old.idxOf? c with
          | some i => (new[i]?.or new.getLast?).getD c
          | none => c
      if options.contains 's' then squeezed new cs else cs
    | _ => none
  match change? with
  | none => p.complain "tr: missing operand\nTry 'tr --help' for more information." 1
  | some change =>
    let onBytes := fun (bytes : ByteArray) => (String.ofList (change (text bytes))).toUTF8
    let s : Stream := { bytes := onBytes p.input.bytes, forever := p.input.forever.map onBytes }
    { p with output := p.output.append s, input := {}, status := 0 }

/-- Passes the input on and writes it to files. -/
def tee (arguments : List String) (p : Process) : Process :=
  let (options, files) := letters arguments
  let (bytes, p) := p.readAll
  let write := fun (files : FileTree) (file : String) =>
    let old := if options.contains 'a' then (files.read ⟨file⟩).toOption.getD .empty else .empty
    (files.write ⟨file⟩ (old ++ bytes)).toOption.getD files
  ({ p with files := files.foldl write p.files }.printBytes bytes).ended 0

/-- Runs the filter of a name, if there is one. -/
def run? (name : String) (arguments : List String) (p : Process) : Option Process :=
  match name with
  | "cat" =>
    let (options, files) := letters arguments
    some (onFiles (named "cat") 1 (if options.contains 'n' then onLines numbered else cat) files p)
  | "head" => some (head arguments p)
  | "tail" => some (tail arguments p)
  | "wc" => some (wc arguments p)
  | "sed" => some (sed arguments p)
  | "grep" => some (grep arguments p)
  | "sort" => some (sort arguments p)
  | "uniq" => some (onFiles (named "uniq") 1 (onEndedLines unrepeated) arguments p)
  | "tac" => some (onFiles (named "tac") 1 (onLines List.reverse) arguments p)
  | "rev" => some (onFiles (named "rev") 1 (onLines (·.map List.reverse)) arguments p)
  | "cut" => some (cut arguments p)
  | "tr" => some (tr arguments p)
  | "tee" => some (tee arguments p)
  | _ => none

/-- The names of the filters. -/
def names : List String :=
  ["cat", "head", "tail", "wc", "sed", "grep", "sort", "uniq", "tac", "rev", "cut", "tr", "tee"]

end RosRecipes.Shell.Filter
