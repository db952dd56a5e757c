/-!
# Reading positions

A cursor stands in a text and knows its column and how far it has come.  Lines end with a line feed, a
carriage return, both, or one of the breaks U+0085, U+2028 and U+2029.
-/

namespace RosRecipes.Yaml

/-- May the character occur in a document at all? -/
def isAllowed (c : Char) : Bool :=
  let n := c.toNat
  n == 0x09 || n == 0x0A || n == 0x0D || (0x20 ≤ n && n ≤ 0x7E) || n == 0x85 || (0xA0 ≤ n && n ≤ 0xD7FF) ||
    (0xE000 ≤ n && n ≤ 0xFFFD) || 0x10000 ≤ n

def isSpaceOrTab (c : Char) : Bool := c == ' ' || c == '\t'

def isBreak (c : Char) : Bool :=
  c == '\r' || c == '\n' || c == '\u0085' || c == '\u2028' || c == '\u2029'

/-- The characters of anchors, handles and directives. -/
def isNameCharacter (c : Char) : Bool := c.isAlphanum || c == '_' || c == '-'

structure Cursor where
  rest : List Char
  /-- Characters before the cursor. -/
  index : Nat := 0
  line : Nat := 0
  column : Nat := 0

namespace Cursor

def peek? (c : Cursor) : Option Char := c.rest.head?

def atEnd (c : Cursor) : Bool := c.rest.isEmpty

/-- Does the character `n` places ahead exist and satisfy `p`? -/
def sees (c : Cursor) (p : Char → Bool) (n : Nat := 0) : Bool := c.rest[n]?.any p

/-- Is there a space, a tab, a break or the end `n` places ahead? -/
def seesGap (c : Cursor) (n : Nat := 0) : Bool :=
  match c.rest[n]? with
  | none => true
  | some x => isSpaceOrTab x || isBreak x

/-- Passes `n` characters of a line. -/
def skip (c : Cursor) (n : Nat := 1) : Cursor :=
  { c with rest := c.rest.drop n, index := c.index + n, column := c.column + n }

/-- Passes the characters of a line that satisfy `p`. -/
def skipWhile (c : Cursor) (p : Char → Bool) : Cursor := c.skip (c.rest.takeWhile p).length

/-- Passes a line break, if there is one, and gives the characters that it stands for. -/
def skipBreak (c : Cursor) : Cursor × List Char :=
  match c.rest with
  | '\r' :: '\n' :: rest => ({ rest, index := c.index + 2, line := c.line + 1, column := 0 }, ['\n'])
  | x :: rest =>
    if isBreak x then
      let text := if x = '\u2028' ∨ x = '\u2029' then [x] else ['\n']
      ({ rest, index := c.index + 1, line := c.line + 1, column := 0 }, text)
    else (c, [])
  | [] => (c, [])

/-- Passes a comment, up to the end of its line. -/
def skipComment (c : Cursor) : Cursor := if c.sees (· == '#') then c.skipWhile (!isBreak ·) else c

/-- Does a line that marks the start or the end of a document begin here? -/
def seesMarker (c : Cursor) (dash : Char) : Bool :=
  c.column == 0 && c.rest.take 3 == [dash, dash, dash] && c.seesGap 3

/-- Does a line that marks the start or the end of some document begin here? -/
def seesAnyMarker (c : Cursor) : Bool := c.seesMarker '-' || c.seesMarker '.'

/-- Passes the rest of a line that holds only spaces, tabs and a comment. -/
def skipIdleLine? (c : Cursor) : Option Cursor :=
  let c := (c.skipWhile isSpaceOrTab).skipComment
  if c.atEnd then some c else if c.sees isBreak then some c.skipBreak.1 else none

end Cursor

end RosRecipes.Yaml
