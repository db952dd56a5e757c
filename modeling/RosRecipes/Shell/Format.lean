import RosRecipes.Xml.Entity

/-!
# Formats

The formats of `printf` and the escapes of `echo`.  The `printf` that is installed knows more escapes than the one
that is part of the shell, and words its complaints differently.

* `format` renders a format with its arguments, `unescape` a text with escapes.
-/

namespace RosRecipes.Shell

/-- Which `printf` it is. -/
inductive Dialect where
  | shell
  | installed
deriving DecidableEq

/-- What has been written so far. -/
structure Rendering where
  bytes : ByteArray := .empty
  complaints : List String := []
  status : Nat := 0
  /-- Nothing more is to be written. -/
  stopped : Bool := false

namespace Rendering

def push (r : Rendering) (bytes : ByteArray) : Rendering := { r with bytes := r.bytes ++ bytes }

def pushText (r : Rendering) (s : String) : Rendering := r.push s.toUTF8

def complain (r : Rendering) (text : String) (status : Nat) : Rendering :=
  { r with complaints := r.complaints ++ [text], status }

def stop (r : Rendering) : Rendering := { r with stopped := true }

end Rendering

/-! ### Escapes -/

def isOctal (c : Char) : Bool := '0' ≤ c && c ≤ '7'

def octalValue (digits : List Char) : Nat := digits.foldl (fun n c => n * 8 + (c.toNat - '0'.toNat)) 0

/-- The bytes of the escapes that are a letter. -/
def letterEscape? (c : Char) : Option UInt8 :=
  [('n', 10), ('t', 9), ('r', 13), ('a', 7), ('b', 8), ('f', 12), ('v', 11), ('e', 27), ('\\', 92), ('"', 34)].lookup c

/-- A character by its number, in a form for terminals without it. -/
def plainCharacter (size n : Nat) : String :=
  if n < 128 then .singleton (.ofNat n)
  else
    let digits := (Nat.toDigits 16 n).map Char.toUpper
    "\\" ++ (if size = 4 then "u" else "U") ++ .ofList (List.replicate (size - digits.length) '0' ++ digits)

/-- Writes the escape after a backslash, and gives what follows it. -/
def escape (dialect : Dialect) (r : Rendering) : List Char → Rendering × List Char
  | [] => (r.pushText "\\", [])
  | c :: rest =>
    let number := fun (size : Nat) =>
      let digits := (rest.take size).takeWhile fun d => (Xml.digit? 16 d).isSome
      (digits, rest.drop digits.length)
    let missing := (r.complain "missing hexadecimal number in escape" 1).stop
    match letterEscape? c with
    | some b => (r.push ⟨#[b]⟩, rest)
    | none =>
      if isOctal c then
        let digits := ((c :: rest).take 3).takeWhile isOctal
        (r.push ⟨#[(octalValue digits).toUInt8]⟩, (c :: rest).drop digits.length)
      else if dialect = .installed && c = 'x' then
        let (digits, rest) := number 2
        if digits.isEmpty then (missing, rest)
        else (r.push ⟨#[((Xml.number? 16 digits).getD 0).toUInt8]⟩, rest)
      else if dialect = .installed && (c = 'u' || c = 'U') then
        let size := if c = 'u' then 4 else 8
        let (digits, rest) := number size
        if digits.length < size then (missing, rest)
        else (r.pushText (plainCharacter size ((Xml.number? 16 digits).getD 0)), rest)
      else (r.pushText ("\\" ++ .singleton c), rest)

/-- Writes a text with escapes.  An octal number may have a zero in front, and `\c` stops all writing. -/
def unescapeFrom (dialect : Dialect) (r : Rendering) (cs : List Char) : (fuel : Nat) → Rendering
  | 0 => r
  | fuel + 1 =>
    if r.stopped then r
    else
      match cs with
      | [] => r
      | '\\' :: 'c' :: _ => r.stop
      | '\\' :: '0' :: rest =>
        let digits := (rest.take 3).takeWhile isOctal
        unescapeFrom dialect (r.push ⟨#[(octalValue digits).toUInt8]⟩) (rest.drop digits.length) fuel
      | '\\' :: rest =>
        let (r, rest) := escape dialect r rest
        unescapeFrom dialect r rest fuel
      | c :: rest => unescapeFrom dialect (r.pushText (.singleton c)) rest fuel

/-- Writes a text with escapes. -/
def unescape (dialect : Dialect) (r : Rendering) (s : String) : Rendering :=
  unescapeFrom dialect r s.toList (s.length + 1)

/-! ### Conversions -/

/-- How an argument is shown. -/
structure Field where
  left : Bool := false
  zeros : Bool := false
  /-- What stands in front of a number that is not negative. -/
  sign : String := ""
  width : Nat := 0
  precision : Option Nat := none

/-- Reads a number, or takes it from the arguments. -/
def Field.readNumber (cs : List Char) (arguments : List String) : Nat × List Char × List String :=
  match cs with
  | '*' :: rest => ((arguments.headD "").toNat?.getD 0, rest, arguments.tail)
  | cs =>
    let digits := cs.takeWhile Char.isDigit
    ((String.ofList digits).toNat?.getD 0, cs.drop digits.length, arguments)

/-- Reads the flags, the width and the precision of a conversion. -/
def Field.read (cs : List Char) (arguments : List String) : Field × List Char × List String :=
  let flags := cs.takeWhile fun c => c ∈ ['-', '0', '+', ' ', '#']
  let (width, rest, arguments) := Field.readNumber (cs.drop flags.length) arguments
  let sign := if '+' ∈ flags then "+" else if ' ' ∈ flags then " " else ""
  let field : Field := { left := '-' ∈ flags, zeros := '0' ∈ flags, sign, width }
  match rest with
  | '.' :: rest =>
    let (precision, rest, arguments) := Field.readNumber rest arguments
    ({ field with precision := some precision }, rest, arguments)
  | rest => (field, rest, arguments)

/-- Fills up to the width. -/
def Field.pad (f : Field) (s : String) : String :=
  let fill := String.ofList (List.replicate (f.width - s.utf8ByteSize) ' ')
  if f.left then s ++ fill else fill ++ s

/-- Shows the digits of a number, with at least as many digits as the precision asks for. -/
def Field.showNumber (f : Field) (sign digits : String) : String :=
  let least := f.precision.getD (if f.zeros && !f.left then f.width - sign.length else 0)
  f.pad (sign ++ .ofList (List.replicate (least - digits.length) '0') ++ digits)

/-- The digits at the start of a text in the base that its first characters announce, and what follows them. -/
def leadingNumber (cs : List Char) : Option Nat × List Char :=
  let (base, digits) := match cs with
    | '0' :: 'x' :: rest | '0' :: 'X' :: rest => (16, rest)
    | '0' :: rest => (8, '0' :: rest)
    | cs => (10, cs)
  let number := digits.takeWhile fun c => (Xml.digit? base c).isSome
  (if number.isEmpty then none else Xml.number? base number, digits.drop number.length)

/-- The number that an argument names, and what is wrong with it. -/
def numberOf (s : String) : Int × Option String :=
  match s.toList with
  | [] => (0, none)
  | '\'' :: c :: _ | '"' :: c :: _ => (c.toNat, none)
  | cs =>
    let cs := cs.dropWhile fun c => c = ' ' || c = '\t' || c = '\n'
    let (negative, digits) := match cs with
      | '-' :: rest => (true, rest)
      | '+' :: rest => (false, rest)
      | cs => (false, cs)
    match leadingNumber digits with
    | (none, _) => (0, some "expected a numeric value")
    | (some n, rest) =>
      (if negative then -(n : Int) else n, if rest.isEmpty then none else some "value not completely converted")

/-- The wording of a fault in an argument. -/
def numberFault (dialect : Dialect) (argument fault : String) : String :=
  match dialect, fault with
  | .installed, fault => "'" ++ argument ++ "': " ++ fault
  | .shell, "expected a numeric value" => argument ++ ": expected numeric value"
  | .shell, _ => argument ++ ": not completely converted"

/-- The digits of a number without a sign, as the machine keeps it. -/
private def unsignedDigits (base : Nat) (n : Int) : String :=
  .ofList (Nat.toDigits base (if n < 0 then n + 0x10000000000000000 else n).toNat)

/-- Writes one argument; `none` if there is no such conversion. -/
def convert? (dialect : Dialect) (r : Rendering) (f : Field) (letter : Char) (argument : String) : Option Rendering :=
  let number := fun (write : Int → String) =>
    let (n, fault) := numberOf argument
    let r := match fault with
      | some fault => r.complain (numberFault dialect argument fault) 1
      | none => r
    some (r.pushText (write n))
  match letter with
  | 'd' | 'i' => number fun n => f.showNumber (if n < 0 then "-" else f.sign) (toString n.natAbs)
  | 'u' => number fun n => f.showNumber "" (unsignedDigits 10 n)
  | 'x' => number fun n => f.showNumber "" (unsignedDigits 16 n)
  | 'X' => number fun n => f.showNumber "" (unsignedDigits 16 n).toUpper
  | 'o' => number fun n => f.showNumber "" (unsignedDigits 8 n)
  | 'c' => some (r.pushText (f.pad (.ofList (argument.toList.take 1))))
  | 's' => some (r.pushText (f.pad (.ofList (argument.toList.take (f.precision.getD argument.length)))))
  | 'b' => some (unescape dialect r argument)
  | _ => none

/-! ### Formats -/

/-- Stops at something that is no conversion. -/
def refuse (dialect : Dialect) (r : Rendering) (conversion : List Char) : Rendering :=
  match dialect, conversion with
  | .installed, _ => (r.complain (.ofList conversion ++ ": invalid conversion specification") 1).stop
  | .shell, [_] => (r.complain "missing format character" 2).stop
  | .shell, _ => (r.complain (.ofList conversion ++ ": invalid directive") 2).stop

/-- Goes through a format once, and gives the arguments that are left. -/
def formatOnce (dialect : Dialect) (r : Rendering) (cs : List Char) (arguments : List String) :
    (fuel : Nat) → Rendering × List String
  | 0 => (r, arguments)
  | fuel + 1 =>
    if r.stopped then (r, arguments)
    else
      match cs with
      | [] => (r, arguments)
      | '\\' :: rest =>
        if dialect = .installed && rest.head? = some 'c' then (r.stop, arguments)
        else
          let (r, rest) := escape dialect r rest
          formatOnce dialect r rest arguments fuel
      | '%' :: '%' :: rest => formatOnce dialect (r.pushText "%") rest arguments fuel
      | '%' :: conversion =>
        let (f, rest, arguments) := Field.read conversion arguments
        match rest with
        | letter :: rest =>
          match convert? dialect r f letter (arguments.headD "") with
          | some r => formatOnce dialect r rest arguments.tail fuel
          | none => (refuse dialect r ('%' :: conversion.take (conversion.length - rest.length)), arguments)
        | [] => (refuse dialect r ('%' :: conversion), arguments)
      | c :: rest => formatOnce dialect (r.pushText (.singleton c)) rest arguments fuel

/-- Goes through a format as long as it takes arguments. -/
def formatFrom (dialect : Dialect) (r : Rendering) (cs : List Char) (arguments : List String) : (fuel : Nat) → Rendering
  | 0 => r
  | fuel + 1 =>
    let (r, rest) := formatOnce dialect r cs arguments (cs.length + 1)
    match rest with
    | [] => r
    | next :: _ =>
      if r.stopped then r
      else if rest.length < arguments.length then formatFrom dialect r cs rest fuel
      else if dialect = .installed then
        { r with complaints := r.complaints ++ ["warning: ignoring excess arguments, starting with '" ++ next ++ "'"] }
      else r

/-- Renders a format with its arguments; it is used again for arguments that are left. -/
def format (dialect : Dialect) (s : String) (arguments : List String) : Rendering :=
  formatFrom dialect {} s.toList arguments (arguments.length + 1)

end RosRecipes.Shell
