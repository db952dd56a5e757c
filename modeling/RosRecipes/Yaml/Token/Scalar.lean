import RosRecipes.Xml.Entity
import RosRecipes.Yaml.Cursor

/-!
# Scalars of a YAML document

Scalars stand in quotes, in an indented block, or plain.  A line break within a scalar is folded: a single one
becomes a space, and of several the first one is dropped; literal blocks keep all.

* `readQuoted?`, `readBlock?` and `readPlain?` read a scalar and give its text.
-/

namespace RosRecipes.Yaml

/-- The blanks and breaks between two parts of a scalar. -/
structure Gap where
  /-- The blanks, reversed, if there is no break. -/
  blanks : List Char := []
  /-- There is a break; one that has been escaped counts, but has no text. -/
  broken : Bool := false
  firstBreak : List Char := []
  moreBreaks : List Char := []

/-- What the gap becomes when the scalar goes on after it. -/
def Gap.fold (g : Gap) : List Char :=
  if !g.broken then g.blanks.reverse
  else if g.firstBreak = ['\n'] then (if g.moreBreaks.isEmpty then [' '] else g.moreBreaks)
  else g.firstBreak ++ g.moreBreaks

/-- Passes blanks and breaks.  After a break no tab may stand before the column `tabLimit`. -/
private def readGap? (tabLimit : Nat) (g : Gap) (c : Cursor) : (fuel : Nat) → Option (Cursor × Gap)
  | 0 => none
  | fuel + 1 =>
    match c.peek? with
    | none => some (c, g)
    | some x =>
      if isSpaceOrTab x then
        if g.broken && c.column < tabLimit && x == '\t' then none
        else readGap? tabLimit (if g.broken then g else { g with blanks := x :: g.blanks }) c.skip fuel
      else if isBreak x then
        let (c, text) := c.skipBreak
        let g :=
          if g.broken then { g with moreBreaks := g.moreBreaks ++ text }
          else { blanks := [], broken := true, firstBreak := text }
        readGap? tabLimit g c fuel
      else some (c, g)

/-! ### Quoted scalars -/

/-- The character of a one-letter escape. -/
def escape? : Char → Option Char
  | '0' => some '\x00'
  | 'a' => some '\x07'
  | 'b' => some '\x08'
  | 't' | '\t' => some '\t'
  | 'n' => some '\n'
  | 'v' => some '\x0b'
  | 'f' => some '\x0c'
  | 'r' => some '\r'
  | 'e' => some '\x1b'
  | ' ' => some ' '
  | '"' => some '"'
  | '/' => some '/'
  | '\\' => some '\\'
  | 'N' => some '\u0085'
  | '_' => some '\u00A0'
  | 'L' => some '\u2028'
  | 'P' => some '\u2029'
  | _ => none

/-- The number of digits of an escape by number. -/
def escapeDigits? : Char → Option Nat
  | 'x' => some 2
  | 'u' => some 4
  | 'U' => some 8
  | _ => none

/-- Reads the escape after a backslash: its character and its length. -/
private def readEscape? : List Char → Option (Char × Nat)
  | [] => none
  | x :: rest =>
    match escape? x with
    | some character => some (character, 1)
    | none => do
      let size ← escapeDigits? x
      let digits := rest.take size
      if digits.length < size then none
      else
        let n ← Xml.number? 16 digits
        if n.isValidChar then some (.ofNat n, size + 1) else none

/-- Reads the characters of a quoted scalar up to a gap or the closing quote; `text` is reversed.  The flag
says that a break has been escaped. -/
private def readQuotedRun? (quote : Char) (c : Cursor) (text : List Char) :
    (fuel : Nat) → Option (Cursor × List Char × Bool)
  | 0 => none
  | fuel + 1 =>
    match c.rest with
    | [] => some (c, text, false)
    | x :: rest =>
      if isSpaceOrTab x || isBreak x then some (c, text, false)
      else if x = quote then
        if quote = '\'' && rest.head? == some '\'' then readQuotedRun? quote (c.skip 2) ('\'' :: text) fuel
        else some (c, text, false)
      else if quote = '"' && x == '\\' then
        if rest.head?.any isBreak then some (c.skip.skipBreak.1, text, true)
        else do
          let (character, size) ← readEscape? rest
          readQuotedRun? quote (c.skip (size + 1)) (character :: text) fuel
      else readQuotedRun? quote c.skip (x :: text) fuel

private def readQuotedFrom? (quote : Char) (c : Cursor) (text : List Char) :
    (fuel : Nat) → Option (Cursor × List Char)
  | 0 => none
  | fuel + 1 =>
    if c.seesAnyMarker || c.atEnd then none
    else do
      let (c, text, escaped) ← readQuotedRun? quote c text (c.rest.length + 1)
      if c.sees (· == quote) then some (c.skip, text)
      else
        let (c, gap) ← readGap? 0 { broken := escaped } c (c.rest.length + 1)
        readQuotedFrom? quote c (gap.fold.reverse ++ text) fuel

/-- Reads a scalar in quotes; the cursor stands at the opening one. -/
def readQuoted? (quote : Char) (c : Cursor) : Option (Cursor × String) := do
  let (c, text) ← readQuotedFrom? quote c.skip [] (c.rest.length + 1)
  return (c, .ofList text.reverse)

/-! ### Plain scalars -/

/-- Does a plain scalar end before the next character?  Colons end it before a gap, and within flow
collections their signs do, too. -/
private def endsPlain (inFlow : Bool) (c : Cursor) : Bool :=
  (c.sees (· == ':') && c.seesGap 1) || (inFlow && c.sees [',', '[', ']', '\x7b', '\x7d'].contains)

/-- Within flow collections a colon must not stand right before one of their signs. -/
private def isMisplacedColon (inFlow : Bool) (c : Cursor) : Bool :=
  inFlow && c.sees (· == ':') && c.sees [',', '?', '[', ']', '\x7b', '\x7d'].contains 1

private def readPlainRun? (inFlow : Bool) (c : Cursor) (gap : Gap) (text : List Char) :
    (fuel : Nat) → Option (Cursor × Gap × List Char)
  | 0 => none
  | fuel + 1 =>
    match c.peek? with
    | none => some (c, gap, text)
    | some x =>
      if c.seesGap then some (c, gap, text)
      else if isMisplacedColon inFlow c then none
      else if endsPlain inFlow c then some (c, gap, text)
      else readPlainRun? inFlow c.skip {} (x :: (gap.fold.reverse ++ text)) fuel

private def readPlainFrom? (inFlow : Bool) (indent : Nat) (c : Cursor) (gap : Gap) (text : List Char) :
    (fuel : Nat) → Option (Cursor × Gap × List Char)
  | 0 => none
  | fuel + 1 =>
    if c.seesAnyMarker || c.sees (· == '#') then some (c, gap, text)
    else do
      let (c, gap, text) ← readPlainRun? inFlow c gap text (c.rest.length + 1)
      if !c.sees fun x => isSpaceOrTab x || isBreak x then some (c, gap, text)
      else
        let (c, gap) ← readGap? indent gap c (c.rest.length + 1)
        if !inFlow && c.column < indent then some (c, gap, text)
        else readPlainFrom? inFlow indent c gap text fuel

/-- Reads a plain scalar, whose further lines are indented to the column `indent`.  The flag says that the
cursor has passed a line break. -/
def readPlain? (inFlow : Bool) (indent : Nat) (c : Cursor) : Option (Cursor × String × Bool) := do
  let (c, gap, text) ← readPlainFrom? inFlow indent c {} [] (c.rest.length + 1)
  return (c, .ofList text.reverse, gap.broken)

/-! ### Block scalars -/

/-- What becomes of the breaks at the end of a block. -/
inductive Chomping where
  | strip
  | clip
  | keep
deriving DecidableEq

/-- Reads the signs after the one that opens a block. -/
private def readBlockHeader? (c : Cursor) : Option (Cursor × Chomping × Option Nat) :=
  let chomping? : Cursor → Option Chomping := fun c =>
    match c.peek? with
    | some '+' => some .keep
    | some '-' => some .strip
    | _ => none
  let digit? : Cursor → Option Nat := fun c => (c.peek?.filter Char.isDigit).map fun d => d.toNat - '0'.toNat
  match chomping? c with
  | some chomping =>
    match digit? c.skip with
    | some 0 => none
    | some n => some (c.skip 2, chomping, some n)
    | none => some (c.skip, chomping, none)
  | none =>
    match digit? c with
    | some 0 => none
    | some n =>
      match chomping? c.skip with
      | some chomping => some (c.skip 2, chomping, some n)
      | none => some (c.skip, .clip, some n)
    | none => some (c, .clip, none)

/-- Passes the indentation and the empty lines before a line of a block.  Without a given indentation it is
that of the most indented line so far. -/
private def readBlockBreaks? (indent : Option Nat) (widest : Nat) (breaks : List Char) (c : Cursor) :
    (fuel : Nat) → Option (Cursor × List Char × Nat)
  | 0 => none
  | fuel + 1 =>
    let room :=
      match indent with
      | some n => n - c.column
      | none => c.rest.length
    let c := c.skip ((c.rest.take room).takeWhile (· == ' ')).length
    let widest := max widest c.column
    if indent.all (c.column < ·) && c.sees (· == '\t') then none
    else if c.sees isBreak then
      let (c, text) := c.skipBreak
      readBlockBreaks? indent widest (breaks ++ text) c fuel
    else some (c, breaks, widest)

private def readBlockLines (folded : Bool) (indent : Nat) (c : Cursor) (text lastBreak breaks : List Char)
    (wasBlank : Bool) : (fuel : Nat) → Option (Cursor × List Char × List Char × List Char)
  | 0 => none
  | fuel + 1 =>
    if c.column == indent && !c.atEnd then do
      let isBlank := c.sees isSpaceOrTab
      let text :=
        if folded && lastBreak == ['\n'] && !wasBlank && !isBlank then
          if breaks.isEmpty then text ++ [' '] else text ++ breaks
        else text ++ lastBreak ++ breaks
      let line := c.rest.takeWhile (!isBreak ·)
      let (c, lastBreak) := (c.skip line.length).skipBreak
      let (c, breaks, _) ← readBlockBreaks? (some indent) 0 [] c (c.rest.length + 1)
      readBlockLines folded indent c (text ++ line) lastBreak breaks isBlank fuel
    else some (c, text, lastBreak, breaks)

/-- Reads a block scalar; the cursor stands at the sign that opens it.  `parent` is the indentation of the
collection around it, if there is one. -/
def readBlock? (folded : Bool) (parent : Option Nat) (c : Cursor) : Option (Cursor × String) := do
  let (c, chomping, given) ← readBlockHeader? c.skip
  let c ← c.skipIdleLine?
  let least := (parent.map (· + 1)).getD 0
  let indent := given.map fun n => n + parent.getD 0
  let (c, breaks, widest) ← readBlockBreaks? indent 0 [] c (c.rest.length + 1)
  let indent := indent.getD (max (max widest least) 1)
  let (c, text, lastBreak, breaks) ← readBlockLines folded indent c [] [] breaks false (c.rest.length + 1)
  let text := if chomping = .strip then text else text ++ lastBreak
  let text := if chomping = .keep then text ++ breaks else text
  return (c, .ofList text)

end RosRecipes.Yaml
