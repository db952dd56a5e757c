import RosRecipes.Xml.Entity

/-!
# Numbers of YAML

A plain scalar is a number if it writes an integer, in decimal digits or with one of the starts `0x`, `0o` and
`0b`, or a finite decimal fraction.  Digits with a zero in front are a text.

* `Number.read?` tells numbers from texts.
-/

namespace RosRecipes.Yaml

inductive Number where
  | integer (value : Int)
  /-- A floating-point number, by its bits. -/
  | real (bits : UInt64)
deriving DecidableEq, Repr

/-- What a text is as a number. -/
inductive NumberReading where
  | number (n : Number)
  /-- An integer that fits into 128 bits, but not into 64. -/
  | tooLarge
  | notANumber
deriving DecidableEq, Repr

namespace Number

private def isSign (c : Char) : Bool := c == '+' || c == '-'

/-- Digits after a sign that start with a zero and are more than the zero. -/
def isPadded (s : List Char) : Bool :=
  let digits :=
    match s with
    | c :: rest => if isSign c then rest else s
    | [] => []
  1 < digits.length && digits.head? == some '0' && digits.all Char.isDigit

/-- The base that a start announces, and the digits after it. -/
private def radix? : List Char → Option (Nat × List Char)
  | '0' :: 'x' :: digits => some (16, digits)
  | '0' :: 'o' :: digits => some (8, digits)
  | '0' :: 'b' :: digits => some (2, digits)
  | _ => none

private def digits? (base : Nat) (s : List Char) : Option Nat := if s.isEmpty then none else Xml.number? base s

/-- The size of an integer, without its sign. -/
private def magnitude? (limit : Nat) (s : List Char) : Option Nat :=
  let announced := (radix? s).bind fun (base, digits) => (digits? base digits).filter (· ≤ limit)
  match announced with
  | some n => some n
  | none => (digits? 10 s).filter (· ≤ limit)

/-- The integer that a text writes, with at most `bits` bits. -/
private def integer? (bits : Nat) (s : List Char) : Option Int :=
  match s with
  | '-' :: rest =>
    if isPadded s && (radix? rest).isNone then none
    else (magnitude? (1 <<< (bits - 1)) rest).map fun n => -(n : Int)
  | _ =>
    let rest :=
      match s with
      | '+' :: rest => rest
      | _ => s
    if isPadded s then none else (magnitude? ((1 <<< bits) - 1) rest).map fun n => (n : Int)

/-! ### Decimal fractions -/

/-- The digits, the places after the point and the exponent of a decimal fraction without its sign. -/
private def decimal? (s : List Char) : Option (List Char × Nat × Int) :=
  let whole := s.takeWhile Char.isDigit
  let rest := s.dropWhile Char.isDigit
  let (fraction, rest) :=
    match rest with
    | '.' :: rest => (rest.takeWhile Char.isDigit, rest.dropWhile Char.isDigit)
    | _ => ([], rest)
  if whole.isEmpty && fraction.isEmpty then none
  else
    let exponent? : Option Int :=
      match rest with
      | [] => some 0
      | e :: rest =>
        if e = 'e' || e = 'E' then
          match rest with
          | '-' :: digits => (digits? 10 digits).map fun n => -(n : Int)
          | '+' :: digits => (digits? 10 digits).map fun n => (n : Int)
          | digits => (digits? 10 digits).map fun n => (n : Int)
        else none
    exponent?.map fun e => (whole ++ fraction, fraction.length, e)

/-- The floating-point number next to a decimal fraction, if it is finite. -/
private def nearest? (digits : List Char) (places : Nat) (exponent : Int) : Option Float :=
  let significant := digits.dropWhile (· == '0')
  let scale : Int := exponent - places
  let top : Int := significant.length + scale
  if significant.isEmpty || top < -400 then some 0
  else if 400 < top then none
  else
    let mantissa := (Xml.number? 10 significant).getD 0
    let value := Float.ofScientific mantissa (scale < 0) scale.natAbs
    if value.isFinite then some value else none

/-- A floating-point number by its bits; both zeros count as one. -/
private def ofFloat (x : Float) : Number := .real (if x == 0 then 0 else x.toBits)

/-- The floating-point number that a text writes. -/
def real? (s : List Char) : Option Number :=
  let infinities := [".inf", ".Inf", ".INF"].map String.toList
  let unsigned : Option (Bool × List Char) :=
    match s with
    | '+' :: c :: rest => if isSign c then none else some (false, c :: rest)
    | '+' :: [] => none
    | '-' :: rest => some (true, rest)
    | _ => some (false, s)
  match unsigned with
  | none => none
  | some (negative, rest) =>
    if infinities.contains rest then some (ofFloat (if negative then -1 / 0 else 1 / 0))
    else if [".nan", ".NaN", ".NAN"].contains (String.ofList s) then some (.real 0x7FF8000000000000)
    else do
      let (digits, places, exponent) ← decimal? rest
      let value ← nearest? digits places exponent
      return ofFloat (if negative then -value else value)

/-- The integer that a text writes. -/
def readInteger (s : List Char) : NumberReading :=
  match (integer? 64 s) with
  | some n => .number (.integer n)
  | none => if (integer? 128 s).isSome then .tooLarge else .notANumber

/-- What a text is as a number. -/
def read? (s : List Char) : NumberReading :=
  match readInteger s with
  | .notANumber =>
    if isPadded s then .notANumber
    else
      match real? s with
      | some n => .number n
      | none => .notANumber
  | reading => reading

end Number

end RosRecipes.Yaml
