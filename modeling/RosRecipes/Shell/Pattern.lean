/-!
# Patterns

The patterns of a choice in a shell script, and the expressions that tools look for in a line of text.

* `fits` matches a shell pattern against a whole text,
* `Expression.find?` looks for an expression in a line, `Substitution.apply` replaces what it finds.
-/

namespace RosRecipes.Shell

/-- Is the character one of a bracketed set, such as `a-z` or `!x`? -/
def inSet (set : List Char) (c : Char) : Bool :=
  let rec among : List Char → Bool
    | first :: '-' :: last :: rest => (first ≤ c && c ≤ last) || among rest
    | x :: rest => x == c || among rest
    | [] => false
  match set with
  | '!' :: set => !among set
  | '^' :: set => !among set
  | set => among set

/-- Does a shell pattern fit a text?  Each character of the pattern comes with whether it was quoted. -/
def fits (pattern : List (Char × Bool)) (text : List Char) : (fuel : Nat) → Bool
  | 0 => false
  | fuel + 1 =>
    match pattern, text with
    | [], text => text.isEmpty
    | ('*', false) :: rest, [] => fits rest [] fuel
    | ('*', false) :: rest, c :: text => fits rest (c :: text) fuel || fits pattern text fuel
    | ('?', false) :: rest, _ :: text => fits rest text fuel
    | ('[', false) :: rest, c :: text =>
      let set := (rest.takeWhile (· ≠ (']', false))).map (·.1)
      if set.length = rest.length then c = '[' && fits rest text fuel
      else inSet set c && fits (rest.drop (set.length + 1)) text fuel
    | (x, _) :: rest, c :: text => x = c && fits rest text fuel
    | _ :: _, [] => false

/-- What one place of an expression matches: a set of characters, once or any number of times. -/
structure Atom where
  set : Option (List Char)
  repeated : Bool

def Atom.fits (a : Atom) (c : Char) : Bool := a.set.all fun set => inSet set c

/-- What is looked for in a line: a sequence of places, perhaps bound to the ends of the line. -/
structure Expression where
  atStart : Bool
  atoms : List Atom
  atEnd : Bool

namespace Expression

/-- The atoms of an expression. -/
def atomsOf (cs : List Char) : (fuel : Nat) → List Atom
  | 0 => []
  | fuel + 1 =>
    let starred := fun (set : Option (List Char)) (rest : List Char) =>
      match rest with
      | '*' :: rest => ⟨set, true⟩ :: atomsOf rest fuel
      | '\\' :: '+' :: rest => ⟨set, false⟩ :: ⟨set, true⟩ :: atomsOf rest fuel
      | rest => ⟨set, false⟩ :: atomsOf rest fuel
    match cs with
    | [] => []
    | '\\' :: c :: rest => starred (some [if c = 'n' then '\n' else if c = 't' then '\t' else c]) rest
    | '.' :: rest => starred none rest
    | '[' :: rest =>
      let set := rest.takeWhile (· ≠ ']')
      starred (some set) (rest.drop (set.length + 1))
    | c :: rest => starred (some [c]) rest

/-- Reads an expression. -/
def ofList (cs : List Char) : Expression :=
  let (atStart, cs) := match cs with
    | '^' :: cs => (true, cs)
    | cs => (false, cs)
  let atEnd := cs.getLast? = some '$'
  let cs := if atEnd then cs.dropLast else cs
  ⟨atStart, atomsOf cs (cs.length + 1), atEnd⟩

/-- A text that stands for itself. -/
def exactly (cs : List Char) : Expression := ⟨false, cs.map fun c => ⟨some [c], false⟩, false⟩

/-- The number of characters that atoms match at the start of a text, as many as possible. -/
def matched? (atEnd : Bool) (atoms : List Atom) (text : List Char) : (fuel : Nat) → Option Nat
  | 0 => none
  | fuel + 1 =>
    match atoms, text with
    | [], text => if atEnd && !text.isEmpty then none else some 0
    | a :: rest, c :: text =>
      let further :=
        if a.fits c then (matched? atEnd (if a.repeated then a :: rest else rest) text fuel).map (· + 1) else none
      if a.repeated then further.or (matched? atEnd rest (c :: text) fuel) else further
    | a :: rest, [] => if a.repeated then matched? atEnd rest [] fuel else none

/-- The number of characters that the expression matches at a place; `first` tells that it is the start of the line. -/
def matchedHere? (e : Expression) (first : Bool) (text : List Char) : Option Nat :=
  if e.atStart && !first then none else matched? e.atEnd e.atoms text (text.length + e.atoms.length + 1)

/-- What the expression matches first: the text before it and its length. -/
def find? (e : Expression) (first : Bool) : List Char → Option (List Char × Nat)
  | [] => (e.matchedHere? first []).map fun n => ([], n)
  | c :: rest =>
    match e.matchedHere? first (c :: rest) with
    | some n => some ([], n)
    | none => (e.find? false rest).map fun (before, n) => (c :: before, n)

/-- Is there a match in a line? -/
def occursIn (e : Expression) (line : List Char) : Bool := (e.find? true line).isSome

end Expression

/-- Replaces what an expression finds in a line. -/
structure Substitution where
  expression : Expression
  replacement : List Char
  everywhere : Bool

namespace Substitution

/-- Reads a command such as `s/a/b/g`. -/
def parse? (command : List Char) : Option Substitution := do
  let 's' :: d :: rest := command | none
  let rec cut : List Char → Option (List Char × List Char)
    | [] => none
    | '\\' :: c :: rest => (cut rest).map fun (piece, rest) => ((if c = d then [c] else ['\\', c]) ++ piece, rest)
    | c :: rest => if c = d then some ([], rest) else (cut rest).map fun (piece, rest) => (c :: piece, rest)
  let (expression, rest) ← cut rest
  let (replacement, flags) ← cut rest
  guard (flags = [] || flags = ['g'])
  return ⟨.ofList expression, replacement, flags = ['g']⟩

/-- The text that replaces a match. -/
def replacing (s : Substitution) (found : List Char) : List Char :=
  let rec go : List Char → List Char
    | '\\' :: c :: rest => (if c = 'n' then '\n' else if c = 't' then '\t' else c) :: go rest
    | '&' :: rest => found ++ go rest
    | c :: rest => c :: go rest
    | [] => []
  go s.replacement

/-- Replaces from some place of a line on. -/
def applyFrom (s : Substitution) (first : Bool) (line : List Char) : (fuel : Nat) → List Char
  | 0 => line
  | fuel + 1 =>
    match s.expression.find? first line with
    | none => line
    | some (before, n) =>
      let rest := line.drop before.length
      let new := before ++ s.replacing (rest.take n)
      let rest := rest.drop n
      if !s.everywhere then new ++ rest
      else
        match n, rest with
        | 0, c :: rest => new ++ c :: applyFrom s false rest fuel
        | _, [] => new
        | _, rest => new ++ applyFrom s false rest fuel

def apply (s : Substitution) (line : List Char) : List Char := s.applyFrom true line (line.length + 1)

end Substitution

end RosRecipes.Shell
