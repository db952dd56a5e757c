import RosRecipes.Xml.Entity

/-!
# JSON values and their texts

A string keeps its text only if its escapes write characters; a lone half of a surrogate pair leaves it
without one.  What is written has no blanks between the tokens.

* `Json.read?` reads a text that holds exactly one value,
* `Json.writeObject` and `Json.writeString` write objects and strings.
-/

namespace RosRecipes

inductive Json where
  | null
  | bool (b : Bool)
  /-- A number; its value does not matter here. -/
  | number
  | string (text : Option String)
  | array (items : List Json)
  | object (fields : List (Option String × Json))
deriving Repr, Inhabited

namespace Json

/-- The text of a string that has one. -/
def text? : Json → Option String
  | .string text => text
  | _ => none

/-! ### Reading -/

def isBlank (c : Char) : Bool := c == ' ' || c == '\n' || c == '\t' || c == '\r'

def skipBlanks (s : List Char) : List Char := s.dropWhile isBlank

/-- Passes one digit or more. -/
def digits? (s : List Char) : Option (List Char) :=
  if s.head?.any Char.isDigit then some (s.dropWhile Char.isDigit) else none

/-- Passes the digits of the whole part; a zero stands alone. -/
def wholePart? : List Char → Option (List Char)
  | '0' :: rest => if rest.head?.any Char.isDigit then none else some rest
  | s => digits? s

/-- Passes a number. -/
def number? (s : List Char) : Option (List Char) := do
  let s ← wholePart? (match s with | '-' :: rest => rest | _ => s)
  let s ←
    match s with
    | '.' :: rest => digits? rest
    | _ => some s
  match s with
  | e :: rest =>
    if e = 'e' || e = 'E' then
      digits? (match rest with | '+' :: rest => rest | '-' :: rest => rest | _ => rest)
    else some s
  | [] => some s

/-- One unit of a string: a character, or half of a surrogate pair. -/
inductive Piece where
  | char (c : Char)
  | half (n : Nat)

/-- Reads the escape after a backslash. -/
def escape? : List Char → Option (Piece × List Char)
  | '"' :: rest => some (.char '"', rest)
  | '\\' :: rest => some (.char '\\', rest)
  | '/' :: rest => some (.char '/', rest)
  | 'b' :: rest => some (.char '\x08', rest)
  | 'f' :: rest => some (.char '\x0c', rest)
  | 'n' :: rest => some (.char '\n', rest)
  | 'r' :: rest => some (.char '\r', rest)
  | 't' :: rest => some (.char '\t', rest)
  | 'u' :: a :: b :: c :: d :: rest => do
    let n ← Xml.number? 16 [a, b, c, d]
    if n.isValidChar then some (.char (.ofNat n), rest) else some (.half n, rest)
  | _ => none

/-- Reads the units of a string up to the closing quote. -/
def pieces? (s : List Char) (read : List Piece) : (fuel : Nat) → Option (List Piece × List Char)
  | 0 => none
  | fuel + 1 =>
    match s with
    | [] => none
    | '"' :: rest => some (read.reverse, rest)
    | '\\' :: rest => do
      let (piece, rest) ← escape? rest
      pieces? rest (piece :: read) fuel
    | c :: rest => if c < ' ' then none else pieces? rest (.char c :: read) fuel

/-- The characters that units write: halves have to come in pairs, the high one first. -/
def characters? : List Piece → Option (List Char)
  | [] => some []
  | .char c :: rest => (characters? rest).map (c :: ·)
  | .half high :: .half low :: rest =>
    if high < 0xDC00 && 0xDC00 ≤ low then
      (characters? rest).map (.ofNat (0x10000 + (high - 0xD800) * 0x400 + (low - 0xDC00)) :: ·)
    else none
  | .half _ :: _ => none

/-- Reads a string after its opening quote. -/
def string? (s : List Char) : Option (Option String × List Char) := do
  let (pieces, rest) ← pieces? s [] (s.length + 1)
  return ((characters? pieces).map .ofList, rest)

mutual

/-- Reads a value, and gives what follows it. -/
def value? (s : List Char) : (fuel : Nat) → Option (Json × List Char)
  | 0 => none
  | fuel + 1 =>
    match skipBlanks s with
    | 'n' :: 'u' :: 'l' :: 'l' :: rest => some (.null, rest)
    | 't' :: 'r' :: 'u' :: 'e' :: rest => some (.bool true, rest)
    | 'f' :: 'a' :: 'l' :: 's' :: 'e' :: rest => some (.bool false, rest)
    | '"' :: rest => (string? rest).map fun (text, rest) => (.string text, rest)
    | '[' :: rest =>
      match skipBlanks rest with
      | ']' :: rest => some (.array [], rest)
      | rest => items? rest [] fuel
    | '\x7b' :: rest =>
      match skipBlanks rest with
      | '\x7d' :: rest => some (.object [], rest)
      | rest => fields? rest [] fuel
    | s => (number? s).map (.number, ·)

/-- Reads the items of an array. -/
def items? (s : List Char) (items : List Json) : (fuel : Nat) → Option (Json × List Char)
  | 0 => none
  | fuel + 1 => do
    let (item, rest) ← value? s fuel
    match skipBlanks rest with
    | ',' :: rest => items? rest (item :: items) fuel
    | ']' :: rest => some (.array (item :: items).reverse, rest)
    | _ => none

/-- Reads the fields of an object. -/
def fields? (s : List Char) (fields : List (Option String × Json)) :
    (fuel : Nat) → Option (Json × List Char)
  | 0 => none
  | fuel + 1 =>
    match skipBlanks s with
    | '"' :: rest => do
      let (key, rest) ← string? rest
      match skipBlanks rest with
      | ':' :: rest =>
        let (value, rest) ← value? rest fuel
        match skipBlanks rest with
        | ',' :: rest => fields? rest ((key, value) :: fields) fuel
        | '\x7d' :: rest => some (.object ((key, value) :: fields).reverse, rest)
        | _ => none
      | _ => none
    | _ => none

end

/-- The value that a text writes. -/
def read? (s : String) : Option Json := do
  let (value, rest) ← value? s.toList (2 * s.toList.length + 2)
  if (skipBlanks rest).isEmpty then some value else none

/-! ### Writing -/

/-- One character between the quotes. -/
def escapeCharacter (c : Char) : List Char :=
  match c with
  | '"' => ['\\', '"']
  | '\\' => ['\\', '\\']
  | '\x08' => ['\\', 'b']
  | '\x0c' => ['\\', 'f']
  | '\n' => ['\\', 'n']
  | '\r' => ['\\', 'r']
  | '\t' => ['\\', 't']
  | c =>
    if c < ' ' then
      ['\\', 'u', '0', '0', Nat.digitChar (c.toNat / 16), Nat.digitChar (c.toNat % 16)]
    else [c]

/-- A string. -/
def writeString (s : String) : String := "\"" ++ .ofList (s.toList.flatMap escapeCharacter) ++ "\""

/-- An object whose values have been written. -/
def writeObject (fields : List (String × String)) : String :=
  let fields := fields.map fun (key, value) => writeString key ++ ":" ++ value
  "\x7b" ++ String.intercalate "," fields ++ "\x7d"

end Json

end RosRecipes
