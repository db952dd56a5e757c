import RosRecipes.Condition.Token

/-!
# Conditions as expressions

A list of tokens is a condition if it derives from

    expression := group ("or" group)*
    group      := test ("and" test)*
    test       := "(" expression ")" | atom | atom sign atom

`Expression.ofTokens` reads it from left to right and stops at the first token that fits no rule.  Chains
of one connective associate to the left.
-/

namespace RosRecipes.Condition

inductive Expression where
  | or (left right : Expression)
  | and (left right : Expression)
  | compare (left : Atom) (sign : Comparison) (right : Atom)
  | nonempty (atom : Atom)
deriving DecidableEq, Repr

/-- What one rule of the grammar reads, and the tokens after it. -/
abbrev Reading := Except Fault (Expression × List Token)

mutual

/-- Reads an expression; `fuel` bounds the depth of the reading. -/
def Expression.readOr (fuel : Nat) (tokens : List Token) : Reading :=
  match fuel with
  | 0 => .error .unexpectedEnd
  | fuel + 1 =>
    match Expression.readAnd fuel tokens with
    | .error e => .error e
    | .ok (left, rest) => Expression.readOrTail fuel left rest

/-- Reads the further groups of an expression. -/
def Expression.readOrTail (fuel : Nat) (left : Expression) (tokens : List Token) : Reading :=
  match fuel with
  | 0 => .error .unexpectedEnd
  | fuel + 1 =>
    match tokens with
    | .or :: rest =>
      match Expression.readAnd fuel rest with
      | .error e => .error e
      | .ok (right, rest) => Expression.readOrTail fuel (.or left right) rest
    | rest => .ok (left, rest)

/-- Reads a group. -/
def Expression.readAnd (fuel : Nat) (tokens : List Token) : Reading :=
  match fuel with
  | 0 => .error .unexpectedEnd
  | fuel + 1 =>
    match Expression.readTest fuel tokens with
    | .error e => .error e
    | .ok (left, rest) => Expression.readAndTail fuel left rest

/-- Reads the further tests of a group. -/
def Expression.readAndTail (fuel : Nat) (left : Expression) (tokens : List Token) : Reading :=
  match fuel with
  | 0 => .error .unexpectedEnd
  | fuel + 1 =>
    match tokens with
    | .and :: rest =>
      match Expression.readTest fuel rest with
      | .error e => .error e
      | .ok (right, rest) => Expression.readAndTail fuel (.and left right) rest
    | rest => .ok (left, rest)

/-- Reads a test. -/
def Expression.readTest (fuel : Nat) (tokens : List Token) : Reading :=
  match fuel with
  | 0 => .error .unexpectedEnd
  | fuel + 1 =>
    match tokens with
    | [] => .error .unexpectedEnd
    | .opening :: rest =>
      match Expression.readOr fuel rest with
      | .error e => .error e
      | .ok (inner, .closing :: rest) => .ok (inner, rest)
      | .ok _ => .error .missingClosing
    | .atom left :: .comparison sign :: .atom right :: rest => .ok (.compare left sign right, rest)
    | .atom _ :: .comparison _ :: _ => .error .missingOperand
    | .atom atom :: rest => .ok (.nonempty atom, rest)
    | _ => .error .unexpectedToken

end

/-- A depth that suffices for every reading of `n` tokens. -/
def readingDepth (n : Nat) : Nat := 3 * n + 4

/-- The expression that a list of tokens stands for. -/
def Expression.ofTokens (tokens : List Token) : Except Fault Expression :=
  match Expression.readOr (readingDepth tokens.length) tokens with
  | .error e => .error e
  | .ok (e, []) => .ok e
  | .ok _ => .error .trailingTokens

end RosRecipes.Condition
