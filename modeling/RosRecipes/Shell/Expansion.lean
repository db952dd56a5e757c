import RosRecipes.Shell.Arithmetic
import RosRecipes.Shell.Tool

/-!
# Expanding words

Before a command runs, parameters get their values, scripts in words are run, and what was not quoted is split at
blanks.

* `expandAll` gives the words of a command, `joined` a word as one text, `pattern` a word as a pattern.
-/

namespace RosRecipes.Shell

/-- What a part of a word becomes: characters, which may be split at blanks, or the border of two words. -/
inductive Piece where
  | characters (text : List Char) (quoted : Bool)
  | border

/-- The number under which a shell knows itself. -/
def ownNumber : String := "4321"

/-- The value of a parameter; it may be several words. -/
def valueOf (p : Process) (name : String) (quoted : Bool) : List Piece :=
  let one := fun (s : String) => [Piece.characters s.toList quoted]
  match name with
  | "#" => one (toString p.arguments.length)
  | "?" => one (toString p.status)
  | "$" => one ownNumber
  | "0" => one p.name
  | "*" => one (String.intercalate " " p.arguments)
  | "@" => (p.arguments.map fun s => Piece.characters s.toList quoted).intersperse .border
  | name =>
    match name.toNat? with
    | some n => one (p.arguments[n - 1]?.getD "")
    | none => one ((p.bindings.get? name).getD "")

/-- Runs a script apart and gives what it printed. -/
abbrev Capture := List Char → Process → Process × List Char

/-- The text of pieces. -/
def joinPieces (pieces : List Piece) : List Char :=
  pieces.flatMap fun piece => match piece with | .characters text _ => text | .border => [' ']

/-- The characters of pieces, each with whether it was quoted. -/
def markPieces (pieces : List Piece) : List (Char × Bool) :=
  pieces.flatMap fun piece =>
    match piece with
    | .characters text quoted => text.map (·, quoted)
    | .border => [(' ', true)]

/-- The text without the part at its start, or at its end, that fits a pattern. -/
def trimFitting (sign : String) (pattern : List (Char × Bool)) (text : List Char) : List Char :=
  let cuts := List.range (text.length + 1)
  let fitting := fun (part : List Char) => fits pattern part (pattern.length + part.length + 1)
  let cut? := match sign with
    | "#" => cuts.find? fun n => fitting (text.take n)
    | "##" => cuts.reverse.find? fun n => fitting (text.take n)
    | "%" => cuts.reverse.find? fun n => fitting (text.drop n)
    | _ => cuts.find? fun n => fitting (text.drop n)
  match cut? with
  | none => text
  | some n => if sign.startsWith "#" then text.drop n else text.take n

/-- The pieces of a word; operands of operators on values are words in turn. -/
def expandTo (capture : Capture) (p : Process) (w : Word) : (depth : Nat) → Process × List Piece
  | 0 => (p, [])
  | depth + 1 =>
    w.foldl (fun (p, pieces) part =>
      match part with
      | .text text quoted => (p, pieces ++ [.characters text quoted])
      | .value name change quoted =>
        let value := valueOf p name quoted
        let isEmpty := (joinPieces value).isEmpty
        match change with
        | none => (p, pieces ++ value)
        | some ("length", _) => (p, pieces ++ [.characters (toString (joinPieces value).length).toList quoted])
        | some (sign, operand) =>
          let (q, other) := expandTo capture p (Token.scanWhole quoted operand) depth
          let isSet := !isEmpty || (!sign.startsWith ":" && p.bindings.contains name)
          match sign with
          | ":-" | "-" => if isSet then (p, pieces ++ value) else (q, pieces ++ other)
          | ":+" | "+" => if isSet then (q, pieces ++ other) else (p, pieces)
          | ":=" | "=" =>
            if isSet then (p, pieces ++ value)
            else
              let bindings := q.bindings.insert name (.ofList (joinPieces other))
              ({ q with bindings }, pieces ++ other)
          | sign =>
            let rest := trimFitting sign (markPieces other) (joinPieces value)
            (q, pieces ++ [.characters rest quoted])
      | .printed script quoted =>
        let (p, text) := capture script p
        (p, pieces ++ [.characters text quoted])
      | .number expression quoted =>
        let (p, pieces') := expandTo capture p (Token.scanWhole true expression) depth
        let lookup := fun (name : String) => (numberOf ((p.bindings.get? name).getD "")).1
        let value := ((Arithmetic.value? lookup (joinPieces pieces')).map toString).getD ""
        (p, pieces ++ [.characters value.toList quoted])) (p, [])

/-- The pieces of a word. -/
def expand (capture : Capture) (p : Process) (w : Word) : Process × List Piece := expandTo capture p w 16

/-- Does the word hold all arguments of the script?  If there are none, it may become no word at all. -/
def holdsArguments (w : Word) : Bool :=
  w.any fun part => match part with | .value "@" _ _ => true | _ => false

/-- The words that pieces of a word become.  Texts of the script itself are not split. -/
def split (w : Word) (pieces : List Piece) : List String :=
  if holdsArguments w && (joinPieces pieces).isEmpty then [] else
  if w.all fun part => match part with | .text .. => true | _ => false then
    [.ofList (pieces.flatMap fun piece => match piece with | .characters text _ => text | .border => [])]
  else
    let add := fun (begun : Option (List Char)) (text : List Char) => some (begun.getD [] ++ text)
    let close := fun (words : List (List Char)) (begun : Option (List Char)) => words ++ begun.toList
    let (words, begun) := pieces.foldl (fun (words, begun) piece =>
      match piece with
      | .border => (close words begun, none)
      | .characters text true => (words, add begun text)
      | .characters text false =>
        text.foldl (fun (words, begun) c =>
          if c = ' ' || c = '\t' || c = '\n' then (close words begun, none) else (words, add begun [c]))
          (words, begun)) (([] : List (List Char)), (none : Option (List Char)))
    (close words begun).map .ofList

/-- A word as one text. -/
def joined (capture : Capture) (p : Process) (w : Word) : Process × String :=
  let (p, pieces) := expand capture p w
  (p, .ofList (joinPieces pieces))

/-- All words of a command. -/
def expandAll (capture : Capture) (p : Process) (words : List Word) : Process × List String :=
  words.foldl (fun (p, done) w =>
    let (p, pieces) := expand capture p w
    (p, done ++ split w pieces)) (p, [])

/-- A pattern, with what was quoted in it. -/
def pattern (capture : Capture) (p : Process) (w : Word) : List (Char × Bool) := markPieces (expand capture p w).2

end RosRecipes.Shell
