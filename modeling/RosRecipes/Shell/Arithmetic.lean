/-!
# Arithmetic

The expressions between `$((` and `))`: whole numbers, variables, the usual operators and parentheses.

* `Arithmetic.value?` gives what an expression is worth.
-/

namespace RosRecipes.Shell.Arithmetic

/-- The operators between two operands, from the weakest to the strongest. -/
def levels : List (List String) :=
  [["||"], ["&&"], ["|"], ["^"], ["&"], ["==", "!="], ["<=", ">=", "<", ">"], ["+", "-"], ["*", "/", "%"]]

private def truth (b : Bool) : Int := if b then 1 else 0

/-- What an operator makes of two values; there is no division by zero. -/
def combine? (operator : String) (a b : Int) : Option Int :=
  match operator with
  | "||" => some (truth (a ≠ 0 || b ≠ 0))
  | "&&" => some (truth (a ≠ 0 && b ≠ 0))
  | "|" => some (a.toNat ||| b.toNat : Nat)
  | "^" => some (a.toNat ^^^ b.toNat : Nat)
  | "&" => some (a.toNat &&& b.toNat : Nat)
  | "==" => some (truth (a = b))
  | "!=" => some (truth (a ≠ b))
  | "<=" => some (truth (a ≤ b))
  | ">=" => some (truth (b ≤ a))
  | "<" => some (truth (a < b))
  | ">" => some (truth (b < a))
  | "+" => some (a + b)
  | "-" => some (a - b)
  | "*" => some (a * b)
  | "/" => if b = 0 then none else some (a.tdiv b)
  | "%" => if b = 0 then none else some (a.tmod b)
  | _ => none

private def isBlank (c : Char) : Bool := c = ' ' || c = '\t' || c = '\n'

private def isNameChar (c : Char) : Bool := c.isAlphanum || c = '_'

/-- The operator of a level at the start of a text; `&` and `|` do not count if they are doubled. -/
private def operator? (operators : List String) (cs : List Char) : Option (String × List Char) :=
  let found := operators.find? fun o =>
    o.toList.isPrefixOf cs && !(o.length = 1 && (o = "&" || o = "|") && cs.take 2 = (o ++ o).toList)
  found.map fun o => (o, cs.drop o.length)

mutual

/-- Reads an operand: a number, a variable, a sign before an operand, or an expression in parentheses. -/
private def operand? (lookup : String → Int) (cs : List Char) : (fuel : Nat) → Option (Int × List Char)
  | 0 => none
  | fuel + 1 =>
    match cs.dropWhile isBlank with
    | '-' :: rest => (operand? lookup rest fuel).map fun (n, rest) => (-n, rest)
    | '+' :: rest => operand? lookup rest fuel
    | '!' :: rest => (operand? lookup rest fuel).map fun (n, rest) => (truth (n = 0), rest)
    | '(' :: rest => do
      let (n, rest) ← expression? lookup levels rest fuel
      match rest.dropWhile isBlank with
      | ')' :: rest => return (n, rest)
      | _ => none
    | cs =>
      let word := cs.takeWhile isNameChar
      let rest := cs.drop word.length
      match word with
      | [] => none
      | c :: _ =>
        if c.isDigit then (String.ofList word).toNat?.map fun n => ((n : Int), rest)
        else some (lookup (.ofList word), rest)

/-- Reads an expression whose operators are at least as strong as the first of the levels. -/
private def expression? (lookup : String → Int) (levels : List (List String)) (cs : List Char) :
    (fuel : Nat) → Option (Int × List Char)
  | 0 => none
  | fuel + 1 =>
    match levels with
    | [] => operand? lookup cs fuel
    | operators :: stronger => do
      let (n, rest) ← expression? lookup stronger cs fuel
      continue? lookup operators stronger n rest fuel

/-- Reads the further operands of one level. -/
private def continue? (lookup : String → Int) (operators : List String) (stronger : List (List String)) (n : Int)
    (cs : List Char) : (fuel : Nat) → Option (Int × List Char)
  | 0 => none
  | fuel + 1 =>
    match operator? operators (cs.dropWhile isBlank) with
    | none => some (n, cs)
    | some (operator, rest) => do
      let (m, rest) ← expression? lookup stronger rest fuel
      continue? lookup operators stronger (← combine? operator n m) rest fuel

end

/-- What an expression is worth, with the values of the variables. -/
def value? (lookup : String → Int) (cs : List Char) : Option Int := do
  let (n, rest) ← expression? lookup levels cs ((levels.length + 2) * (cs.length + 2))
  if rest.all isBlank then some n else none

end RosRecipes.Shell.Arithmetic
