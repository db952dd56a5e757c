/-!
# Tokens of shell scripts

A script is cut into words, operators and line endings.  A word keeps what was quoted apart from what was not,
since only the latter is split or matched against patterns after its parameters have got their values.

* `Token.scan` gives the tokens of a script, or nothing if a quote is not closed,
* `Token.scanWhole` reads a whole text as one word.
-/

namespace RosRecipes.Shell

/-- A part of a word. -/
inductive Part where
  | text (text : List Char) (quoted : Bool)
  /-- The value of a parameter, perhaps changed by an operator with an operand. -/
  | value (name : String) (change : Option (String × List Char)) (quoted : Bool)
  /-- What a script prints. -/
  | printed (script : List Char) (quoted : Bool)
  /-- What an expression is worth. -/
  | number (expression : List Char) (quoted : Bool)
deriving DecidableEq, Repr

abbrev Word := List Part

/-- The text of a word without quotes and parameters. -/
def plain? (w : Word) : Option String :=
  let texts := w.mapM fun (part : Part) =>
    match part with
    | .text text false => some text
    | _ => none
  texts.map fun texts => .ofList texts.flatten

inductive Token where
  | word (w : Word) (line : Nat)
  /-- An operator, or the end of a line. -/
  | mark (text : String)
  /-- A redirection of a descriptor: the operator, whose target is the next word. -/
  | redirect (descriptor : Nat) (operator : String)
deriving DecidableEq, Repr

namespace Token

/-- May the character be part of a name? -/
def isNameChar (c : Char) : Bool := c.isAlphanum || c = '_'

/-- The names of parameters that are no variables. -/
def specialNames : List Char := ['@', '*', '#', '?', '$', '!', '-']

/-! ### Parameters -/

/-- The text up to the sign that closes what has been opened, and what follows it.  Quoted signs do not count. -/
def closing (opening ending : Char) (depth : Nat) (quote : Option Char) : List Char → Option (List Char × List Char)
  | [] => none
  | [c] => if c = ending && depth = 0 && quote.isNone then some ([], []) else none
  | c :: next :: rest =>
    if c = '\\' && quote ≠ some '\'' then
      (closing opening ending depth quote rest).map fun (inner, rest) => (c :: next :: inner, rest)
    else if c = ending && depth = 0 && quote.isNone then some ([], next :: rest)
    else
      let isQuote := c = '"' || c = '\''
      let quote := if quote = some c then none else if quote.isNone && isQuote then some c else quote
      let depth :=
        if quote.isSome then depth
        else if c = opening then depth + 1
        else if c = ending then depth - 1
        else depth
      (closing opening ending depth quote (next :: rest)).map fun (inner, rest) => (c :: inner, rest)

/-- The operators on values, the longest first. -/
def changes : List String := [":-", ":=", ":+", "##", "%%", "-", "=", "+", "#", "%"]

/-- A parameter in braces. -/
def braced (quoted : Bool) (inner : List Char) : Part :=
  match inner with
  | '#' :: c :: rest => .value (.ofList (c :: rest)) (some ("length", [])) quoted
  | _ =>
    let name :=
      match inner with
      | c :: _ => if specialNames.contains c then [c] else inner.takeWhile isNameChar
      | [] => []
    let rest := inner.drop name.length
    let change := (changes.find? fun sign => sign.toList.isPrefixOf rest).map fun sign => (sign, rest.drop sign.length)
    .value (.ofList name) change quoted

/-- The part that follows a dollar sign. -/
def dollar (quoted : Bool) (cs : List Char) : Part × List Char :=
  match cs with
  | '\x7b' :: rest =>
    match closing '\x7b' '\x7d' 0 none rest with
    | some (inner, rest) => (braced quoted inner, rest)
    | none => (.text ['$'] quoted, cs)
  | '(' :: rest =>
    match closing '(' ')' 0 none rest with
    | some ('(' :: inner, rest) =>
      match closing '(' ')' 0 none inner with
      | some (expression, []) => (.number expression quoted, rest)
      | _ => (.printed ('(' :: inner) quoted, rest)
    | some (inner, rest) => (.printed inner quoted, rest)
    | none => (.text ['$'] quoted, cs)
  | c :: rest =>
    if c.isDigit || specialNames.contains c then (.value (.singleton c) none quoted, rest)
    else
      let name := cs.takeWhile isNameChar
      if name.isEmpty then (.text ['$'] quoted, cs) else (.value (.ofList name) none quoted, cs.drop name.length)
  | [] => (.text ['$'] quoted, [])

/-- The script between backticks, and what follows it. -/
def backticked : List Char → Option (List Char × List Char)
  | [] => none
  | '`' :: rest => some ([], rest)
  | '\\' :: c :: rest =>
    let kept := if c = '`' || c = '\\' || c = '$' then [c] else ['\\', c]
    (backticked rest).map fun (inner, rest) => (kept ++ inner, rest)
  | c :: rest => (backticked rest).map fun (inner, rest) => (c :: inner, rest)

/-! ### Words -/

/-- What counts as quoted where a word is read. -/
inductive Quoting where
  /-- Nothing; `whole` says that the word goes on to the end of the text. -/
  | bare (whole : Bool)
  /-- A double quote is open. -/
  | doubled (whole : Bool)
  /-- Everything up to the end of the text is quoted. -/
  | document
deriving DecidableEq

def Quoting.isBare : Quoting → Bool
  | .bare _ => true
  | _ => false

def Quoting.isDoubled : Quoting → Bool
  | .doubled _ => true
  | _ => false

/-- Does the character end a word that is not quoted? -/
def endsWord (c : Char) : Bool := c ∈ [' ', '\t', '\n', ';', '&', '|', '(', ')', '<', '>']

/-- Adds a part; neighbouring texts of one kind are one part. -/
def push (part : Part) : Word → Word
  | .text text quoted :: rest =>
    match part with
    | .text more same =>
      if quoted = same then .text (text ++ more) quoted :: rest else part :: .text text quoted :: rest
    | _ => part :: .text text quoted :: rest
  | w => part :: w

/-- Scans the rest of a word, of which `w` has been read in reverse. -/
def scanWord (quoting : Quoting) (w : Word) (cs : List Char) : (fuel : Nat) → Option (Word × List Char)
  | 0 => none
  | fuel + 1 =>
    let quoted := !quoting.isBare
    match cs with
    | [] => if quoting.isDoubled then none else some (w.reverse, [])
    | '\\' :: c :: rest =>
      if c = '\n' then scanWord quoting w rest fuel
      else if quoted && !(c ∈ ['$', '`', '\\'] || (c = '"' && quoting.isDoubled)) then
        scanWord quoting (push (.text ['\\', c] true) w) rest fuel
      else scanWord quoting (push (.text [c] true) w) rest fuel
    | '$' :: rest =>
      let (part, rest) := dollar quoted rest
      scanWord quoting (push part w) rest fuel
    | '`' :: rest => do
      let (inner, rest) ← backticked rest
      scanWord quoting (push (.printed inner quoted) w) rest fuel
    | c :: rest =>
      match quoting with
      | .document => scanWord quoting (push (.text [c] true) w) rest fuel
      | .doubled whole =>
        if c = '"' then scanWord (.bare whole) (push (.text [] true) w) rest fuel
        else scanWord quoting (push (.text [c] true) w) rest fuel
      | .bare whole =>
        if c = '"' then scanWord (.doubled whole) (push (.text [] true) w) rest fuel
        else if c = '\'' then
          let inner := rest.takeWhile (· ≠ '\'')
          if inner.length = rest.length then none
          else scanWord quoting (push (.text inner true) w) (rest.drop (inner.length + 1)) fuel
        else if !whole && endsWord c then some (w.reverse, c :: rest)
        else scanWord quoting (push (.text [c] false) w) rest fuel

/-- A whole text as one word, in which everything may be quoted. -/
def scanWhole (quoted : Bool) (cs : List Char) : Word :=
  ((scanWord (if quoted then .document else .bare true) [] cs (cs.length + 1)).map (·.1)).getD []

/-! ### Documents -/

/-- The lines of a document up to the line that ends it, and what follows. -/
def documentLines (dropTabs : Bool) (last : List Char) (cs : List Char) : (fuel : Nat) → List Char × List Char
  | 0 => ([], cs)
  | fuel + 1 =>
    if cs.isEmpty then ([], [])
    else
      let line := cs.takeWhile (· ≠ '\n')
      let rest := cs.drop (line.length + 1)
      let line := if dropTabs then line.dropWhile (· = '\t') else line
      if line = last then ([], rest)
      else
        let (lines, rest) := documentLines dropTabs last rest fuel
        (line ++ ['\n'] ++ lines, rest)

/-- Reads a document, which starts on the line after the word that ends it: the word for its content, and the
script without it. -/
def readDocument (dropTabs : Bool) (ending : Word) (cs : List Char) : Word × List Char :=
  let isPlain := (plain? ending).isSome
  let last := ending.flatMap fun part => match part with | .text text _ => text | _ => []
  let here := cs.takeWhile (· ≠ '\n')
  let (content, rest) := documentLines dropTabs last (cs.drop (here.length + 1)) (cs.length + 1)
  (if isPlain then scanWhole true content else [.text content true], here ++ '\n' :: rest)

/-! ### Scripts -/

/-- The operators that are no redirections, the longest first. -/
def marks : List (List Char) :=
  [[';', ';'], ['&', '&'], ['|', '|'], [';'], ['&'], ['|'], ['('], [')'], ['\n']]

/-- The operators of redirections, the longest first. -/
def redirections : List (List Char) :=
  [['<', '<', '-'], ['<', '<'], ['>', '>'], ['>', '&'], ['<', '&'], ['>', '|'], ['>'], ['<']]

/-- A redirection at the start of the text: its descriptor and its operator. -/
def redirection? (cs : List Char) : Option (Nat × String × List Char) :=
  let (descriptor, cs) := match cs with
    | c :: rest => if c.isDigit then (some (c.toNat - '0'.toNat), rest) else (none, cs)
    | [] => (none, cs)
  (redirections.find? fun operator => operator.isPrefixOf cs).map fun operator =>
    let standard := if operator.head? = some '<' then 0 else 1
    (descriptor.getD standard, .ofList operator, cs.drop operator.length)

/-- The tokens of the rest of a script, which starts on the given line. -/
def scanFrom (line : Nat) (cs : List Char) : (fuel : Nat) → Option (List Token)
  | 0 => none
  | fuel + 1 =>
    match cs with
    | [] => some []
    | '\\' :: '\n' :: rest => scanFrom (line + 1) rest fuel
    | c :: rest =>
      if c = ' ' || c = '\t' then scanFrom line rest fuel
      else if c = '#' then scanFrom line (rest.dropWhile (· ≠ '\n')) fuel
      else
        match marks.find? (·.isPrefixOf cs), redirection? cs with
        | some found, _ => do
          let line := if found = ['\n'] then line + 1 else line
          return .mark (.ofList found) :: (← scanFrom line (cs.drop found.length) fuel)
        | none, some (descriptor, operator, rest) => do
          if operator.startsWith "<<" then
            let rest := rest.dropWhile fun c => c = ' ' || c = '\t'
            let (ending, rest) ← scanWord (.bare false) [] rest (rest.length + 1)
            let (content, rest) := readDocument (operator = "<<-") ending rest
            return .redirect descriptor "<<" :: .word content line :: (← scanFrom line rest fuel)
          else return .redirect descriptor operator :: (← scanFrom line rest fuel)
        | none, none => do
          let (w, rest) ← scanWord (.bare false) [] cs (cs.length + 1)
          let passed := ((cs.take (cs.length - rest.length)).filter (· = '\n')).length
          return .word w line :: (← scanFrom (line + passed) rest fuel)

/-- The tokens of a script. -/
def scan (script : List Char) : Option (List Token) := scanFrom 1 script (script.length + 1)

end Token

end RosRecipes.Shell
