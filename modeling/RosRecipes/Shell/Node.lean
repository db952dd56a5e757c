import RosRecipes.Shell.Token

/-!
# Shell scripts

A script is a tree of commands.

* `Node.parse?` reads a script.
-/

namespace RosRecipes.Shell

/-- A redirection of a descriptor. -/
structure Redirection where
  descriptor : Nat
  operator : String
  target : Word
deriving DecidableEq, Repr

inductive Node where
  | nothing
  /-- Assignments and the words of a command, on a line. -/
  | simple (line : Nat) (assignments : List (String × Word)) (words : List Word)
  | redirected (body : Node) (redirections : List Redirection)
  | sequence (first second : Node)
  /-- The second one runs if the first one ended well. -/
  | both (first second : Node)
  /-- The second one runs if the first one did not end well. -/
  | either (first second : Node)
  | negated (body : Node)
  | pipe (first second : Node)
  /-- Runs apart, so that it changes no variables. -/
  | apart (body : Node)
  /-- The first body one of whose patterns fits. -/
  | choice (subject : Word) (branches : List (List Word × Node))
  | branch (condition yes no : Node)
  /-- Runs as long as the condition ends as wanted. -/
  | loop (wanted : Bool) (condition body : Node)
  /-- Runs for each word; without words, for each argument of the script. -/
  | each (name : String) (words : Option (List Word)) (body : Node)
  /-- Gives a body a name, under which it can be run. -/
  | function (name : String) (body : Node)

namespace Node

/-- The keyword at the start of some tokens. -/
def keyword? : List Token → Option String
  | .word w _ :: _ => plain? w
  | _ => none

def dropKeyword (name : String) (ts : List Token) : Option (List Token) :=
  if keyword? ts = some name then some ts.tail else none

def dropMark (text : String) : List Token → Option (List Token)
  | .mark m :: ts => if m = text then some ts else none
  | _ => none

/-- Drops line endings. -/
def dropLines (ts : List Token) : List Token :=
  ts.dropWhile fun t => match t with | .mark m => m == "\n" | _ => false

/-- Drops the ends of commands. -/
def dropEnds (ts : List Token) : List Token :=
  ts.dropWhile fun t => match t with | .mark m => m == "\n" || m == ";" || m == "&" | _ => false

/-- An assignment: the name and the word after the equals sign. -/
def assignment? : Word → Option (String × Word)
  | .text text false :: rest =>
    let name := text.takeWhile Token.isNameChar
    match text.drop name.length with
    | '=' :: value =>
      if name.isEmpty || name.head?.any Char.isDigit then none
      else some (.ofList name, if value.isEmpty then rest else .text value false :: rest)
    | _ => none
  | _ => none

/-- Reads the words and redirections of a command, whose assignments come first. -/
def readWords (assignments : List (String × Word)) (words : List Word) (redirections : List Redirection) (line : Nat) :
    List Token → Node × List Token
  | .word w here :: ts =>
    let line := if line = 0 then here else line
    match if words.isEmpty then assignment? w else none with
    | some a => readWords (assignments ++ [a]) words redirections line ts
    | none => readWords assignments (words ++ [w]) redirections line ts
  | .redirect descriptor operator :: .word w here :: ts =>
    let line := if line = 0 then here else line
    readWords assignments words (redirections ++ [⟨descriptor, operator, w⟩]) line ts
  | ts =>
    let body := if assignments.isEmpty && words.isEmpty then nothing else simple line assignments words
    (if redirections.isEmpty then body else redirected body redirections, ts)

/-- Reads redirections after a compound command. -/
def readRedirections (body : Node) : List Token → Node × List Token
  | .redirect descriptor operator :: .word w _ :: ts =>
    readRedirections (redirected body [⟨descriptor, operator, w⟩]) ts
  | ts => (body, ts)

/-- The words of a loop. -/
def readItems : List Token → List Word × List Token
  | .word w _ :: ts =>
    let (items, ts) := readItems ts
    (w :: items, ts)
  | ts => ([], ts)

/-- The patterns of a branch, up to the parenthesis. -/
def readPatterns : List Token → Option (List Word × List Token)
  | .word w _ :: .mark "|" :: ts => (readPatterns ts).map fun (patterns, ts) => (w :: patterns, ts)
  | .word w _ :: .mark ")" :: ts => some ([w], ts)
  | _ => none

/-- The words that end a list of commands. -/
def closers : List String := ["then", "else", "elif", "fi", "do", "done", "esac", "\x7d"]

/-- The parts of the grammar. -/
inductive Goal where
  | list
  | condition
  | pipeline
  | command
  | branches
  | alternative

/-- Reads a part of the grammar; only for the branches of a choice is there a list. -/
def read (goal : Goal) (ts : List Token) : (fuel : Nat) → Option (Node × List (List Word × Node) × List Token)
  | 0 => none
  | fuel + 1 =>
    let one := fun (goal : Goal) (ts : List Token) => (read goal ts fuel).map fun (n, _, ts) => (n, ts)
    match goal with
    | .list => do
      let ts := dropEnds ts
      let atEnd := match ts with
        | [] => true
        | .mark m :: _ => m == ")" || m == ";;"
        | ts => (keyword? ts).any (closers.contains ·)
      if atEnd then return (nothing, [], ts)
      let (first, ts) ← one .condition ts
      let (second, ts) ← one .list ts
      return (match second with | nothing => first | second => sequence first second, [], ts)
    | .condition => do
      let mut (node, ts) ← one .pipeline ts
      for _ in [0:ts.length] do
        match dropMark "&&" ts, dropMark "||" ts with
        | some rest, _ =>
          let (next, rest) ← one .pipeline (dropLines rest)
          node := both node next
          ts := rest
        | none, some rest =>
          let (next, rest) ← one .pipeline (dropLines rest)
          node := either node next
          ts := rest
        | none, none => pure ()
      return (node, [], ts)
    | .pipeline => do
      match dropKeyword "!" ts with
      | some ts =>
        let (body, ts) ← one .pipeline ts
        return (negated body, [], ts)
      | none =>
        let (first, ts) ← one .command ts
        match dropMark "|" ts with
        | some rest =>
          let (second, ts) ← one .pipeline (dropLines rest)
          return (pipe first second, [], ts)
        | none => return (first, [], ts)
    | .command => do
      let closed := fun (body : Node) (ts : List Token) =>
        let (body, ts) := readRedirections body ts
        some (body, ([] : List (List Word × Node)), ts)
      match ts with
      | .mark "(" :: ts =>
        let (body, ts) ← one .list ts
        closed (apart body) (← dropMark ")" ts)
      | .word w _ :: .mark "(" :: .mark ")" :: ts =>
        let (body, ts) ← one .command (dropLines ts)
        return (function (← plain? w) body, [], ts)
      | ts =>
        match keyword? ts with
        | some "\x7b" =>
          let (body, ts) ← one .list ts.tail
          closed body (← dropKeyword "\x7d" ts)
        | some "if" =>
          let (body, ts) ← one .alternative ts.tail
          closed body ts
        | some "while" | some "until" =>
          let (condition, rest) ← one .list ts.tail
          let (body, rest) ← one .list (← dropKeyword "do" rest)
          closed (loop (keyword? ts = some "while") condition body) (← dropKeyword "done" rest)
        | some "for" =>
          let .word w _ :: rest := ts.tail | none
          let name ← plain? w
          let (items, rest) := match dropKeyword "in" (dropLines rest) with
            | some rest =>
              let (items, rest) := readItems rest
              (some items, rest)
            | none => (none, rest)
          let (body, rest) ← one .list (← dropKeyword "do" (dropEnds rest))
          closed (each name items body) (← dropKeyword "done" rest)
        | some "case" =>
          let .word subject _ :: rest := ts.tail | none
          let rest ← dropKeyword "in" (dropLines rest)
          let (_, branches, rest) ← read .branches rest fuel
          closed (choice subject branches) rest
        | _ =>
          let (n, rest) := readWords [] [] [] 0 ts
          if rest.length = ts.length then none else return (n, [], rest)
    | .branches => do
      let ts := dropLines ts
      match dropKeyword "esac" ts with
      | some ts => return (nothing, [], ts)
      | none =>
        let (patterns, ts) ← readPatterns ((dropMark "(" ts).getD ts)
        let (body, ts) ← one .list ts
        let (_, later, ts) ← read .branches ((dropMark ";;" ts).getD ts) fuel
        return (nothing, (patterns, body) :: later, ts)
    | .alternative => do
      let (condition, ts) ← one .list ts
      let (yes, ts) ← one .list (← dropKeyword "then" ts)
      match keyword? ts with
      | some "elif" =>
        let (no, ts) ← one .alternative ts.tail
        return (branch condition yes no, [], ts)
      | some "else" =>
        let (no, ts) ← one .list ts.tail
        return (branch condition yes no, [], ← dropKeyword "fi" ts)
      | _ => return (branch condition yes nothing, [], ← dropKeyword "fi" ts)

/-- Reads a script. -/
def parse? (script : List Char) : Option Node := do
  let ts ← Token.scan script
  match ← read .list ts (4 * ts.length + 8) with
  | (n, _, []) => return n
  | _ => none

end Node

end RosRecipes.Shell
