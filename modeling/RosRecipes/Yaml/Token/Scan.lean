import RosRecipes.Text.Utf8
import RosRecipes.Yaml.Token.Scalar

/-!
# Cutting a YAML document into tokens

In block collections the indentation is the structure: a token that stands further in opens a collection, one
that stands further out closes all collections it leaves.  Whether a node is a key is seen only at the colon
after it, so the place of a node that may be a key is remembered, and the token for the key is put there.

* `Token` is a token, `Token.scan?` cuts a text.
-/

namespace RosRecipes.Yaml

inductive Token where
  | version (major minor : Nat)
  | tagDirective (handle start : List Char)
  | documentStart
  | documentEnd
  | blockSequenceStart
  | blockMappingStart
  | blockEnd
  | flowSequenceStart
  | flowSequenceEnd
  | flowMappingStart
  | flowMappingEnd
  | blockEntry
  | flowEntry
  | key
  | value
  | alias (name : String)
  | anchor (name : String)
  | tag (handle suffix : List Char)
  /-- A scalar; plain ones stand without quotes and are no block. -/
  | scalar (text : String) (plain : Bool)
deriving DecidableEq, Repr

/-- A node that may turn out to be a key. -/
structure PendingKey where
  /-- The number of tokens before it. -/
  position : Nat
  /-- It has to be a key, since it stands where a key of the block mapping would. -/
  required : Bool
  index : Nat
  line : Nat
  column : Nat

structure Scanner where
  cursor : Cursor
  tokens : Array Token := #[]
  /-- The column of the innermost block collection; none outside of all. -/
  indent : Option Nat := none
  /-- The columns of the block collections around it, innermost first. -/
  outer : List (Option Nat) := []
  /-- A node that may be a key, for each flow collection that is open and outside of them, innermost first. -/
  pending : List (Option PendingKey) := [none]
  keyAllowed : Bool := true

namespace Scanner

def inFlow (s : Scanner) : Bool := 1 < s.pending.length

def push (s : Scanner) (t : Token) : Scanner := { s with tokens := s.tokens.push t }

/-- Puts a token before those that come after the first `n`. -/
private def insertToken (s : Scanner) (n : Nat) (t : Token) : Scanner :=
  { s with tokens := s.tokens.extract 0 n ++ #[t] ++ s.tokens.extract n s.tokens.size }

/-- Opens a block collection at a column that is further in than all open ones. -/
private def roll (s : Scanner) (column : Nat) (position : Nat) (t : Token) : Scanner :=
  if s.inFlow || !(s.indent.all (· < column)) then s
  else { s.insertToken position t with outer := s.indent :: s.outer, indent := some column }

/-- Closes the block collections that are further in than a column, or all. -/
private def unrollFrom (s : Scanner) (column : Option Nat) : List (Option Nat) → Scanner
  | [] => s
  | outer :: rest =>
    if s.indent.any fun n => column.all (· < n) then
      unrollFrom { s with tokens := s.tokens.push .blockEnd, indent := outer, outer := rest } column rest
    else s

private def unroll (s : Scanner) (column : Option Nat) : Scanner :=
  if s.inFlow then s else s.unrollFrom column s.outer

/-- Gives up the innermost node that may be a key. -/
private def dropPending? (s : Scanner) : Option Scanner :=
  match s.pending with
  | some key :: rest => if key.required then none else some { s with pending := none :: rest }
  | _ => some s

/-- Remembers that the next node may be a key. -/
private def savePending? (s : Scanner) : Option Scanner :=
  if s.keyAllowed then do
    let required := !s.inFlow && s.indent == some s.cursor.column
    let s ← s.dropPending?
    let c := s.cursor
    let key := { position := s.tokens.size, required, index := c.index, line := c.line, column := c.column }
    return { s with pending := some key :: s.pending.drop 1 }
  else some s

/-- Gives up the nodes that are too far back to be keys: on another line, or more than 1024 characters. -/
private def dropStale? (s : Scanner) : Option Scanner := do
  let pending ← s.pending.mapM fun key? =>
    match key? with
    | some key =>
      if key.line < s.cursor.line || key.index + 1024 < s.cursor.index then
        if key.required then none else some none
      else some (some key)
    | none => some none
  return { s with pending }

/-- Passes blanks, comments and breaks.  Tabs count as blanks only where no key may begin. -/
private def passGap (s : Scanner) : (fuel : Nat) → Scanner
  | 0 => s
  | fuel + 1 =>
    let c := s.cursor
    let c := if c.index == 0 && c.sees (· == '\uFEFF') then c.skip else c
    let c := c.skipWhile fun x => x == ' ' || ((s.inFlow || !s.keyAllowed) && x == '\t')
    let c := c.skipComment
    if c.sees isBreak then
      passGap { s with cursor := c.skipBreak.1, keyAllowed := s.keyAllowed || !s.inFlow } fuel
    else { s with cursor := c }

/-- Passes `n` characters and adds a token. -/
private def take (s : Scanner) (t : Token) (n : Nat := 1) : Scanner := { s.push t with cursor := s.cursor.skip n }

/-! ### Tags and directives -/

/-- The octet that an escape such as `%C3` stands for. -/
private def octet? : List Char → Option Nat
  | '%' :: a :: b :: _ => Xml.number? 16 [a, b]
  | _ => none

/-- Reads the escaped octets of one character. -/
private def readOctets? (c : Cursor) : Option (Cursor × Char) := do
  let first ← octet? c.rest
  let (size, start) ←
    if first < 0x80 then some (1, first)
    else if first / 32 = 6 then some (2, first % 32)
    else if first / 16 = 14 then some (3, first % 16)
    else if first / 8 = 30 then some (4, first % 8)
    else none
  let value ← (List.range (size - 1)).foldlM (fun value i => do
    let next ← octet? (c.rest.drop (3 * (i + 1)))
    if next / 64 = 2 then some (value * 64 + next % 64) else none) start
  if value.isValidChar then return (c.skip (3 * size), .ofNat value) else none

/-- Reads the characters of a tag; those of flow collections only if `verbatim`. -/
private def readTagText? (verbatim : Bool) (c : Cursor) (text : List Char) :
    (fuel : Nat) → Option (Cursor × List Char)
  | 0 => none
  | fuel + 1 =>
    match c.peek? with
    | some '%' => do
      let (c, x) ← readOctets? c
      readTagText? verbatim c (x :: text) fuel
    | some x =>
      if isNameCharacter x || ";/?:@&=+$.!~*'()".toList.contains x || (verbatim && [',', '[', ']'].contains x) then
        readTagText? verbatim c.skip (x :: text) fuel
      else some (c, text.reverse)
    | none => some (c, text.reverse)

private def tagText? (verbatim : Bool) (c : Cursor) : Option (Cursor × List Char) :=
  readTagText? verbatim c [] (c.rest.length + 1)

/-- Reads the handle of a tag: an exclamation mark, and perhaps a name and a second one. -/
private def readHandle? (c : Cursor) : Option (Cursor × List Char) :=
  if !c.sees (· == '!') then none
  else
    let name := c.skip.rest.takeWhile isNameCharacter
    let c := c.skip (name.length + 1)
    if c.sees (· == '!') then some (c.skip, '!' :: name ++ ['!']) else some (c, '!' :: name)

/-- Reads a tag: its handle and the text after it. -/
private def readTag? (c : Cursor) (inFlow : Bool) : Option (Cursor × Token) := do
  let (c, handle, suffix) ←
    if c.sees (· == '<') 1 then
      let (c, text) ← tagText? true (c.skip 2)
      if text.isEmpty || !c.sees (· == '>') then none else some (c.skip, [], text)
    else
      let (c, handle) ← readHandle? c
      let (c, text) ← tagText? false c
      if 2 ≤ handle.length && handle.getLast? == some '!' then
        if text.isEmpty then none else some (c, handle, text)
      else
        let text := handle.drop 1 ++ text
        if text.isEmpty then some (c, [], ['!']) else some (c, ['!'], text)
  if c.seesGap || (inFlow && c.sees (· == ',')) then some (c, .tag handle suffix) else none

/-- Reads the digits of a version. -/
private def readVersionNumber? (c : Cursor) : Option (Cursor × Nat) :=
  let digits := c.rest.takeWhile Char.isDigit
  if digits.isEmpty || 9 < digits.length then none
  else (Xml.number? 10 digits).map (c.skip digits.length, ·)

/-- Reads a directive, which is a line of its own before a document. -/
private def readDirective? (c : Cursor) : Option (Cursor × Token) := do
  let name := c.skip.rest.takeWhile isNameCharacter
  let c := c.skip (name.length + 1)
  if !c.seesGap then none
  else
    let start := c.skipWhile isSpaceOrTab
    let (c, token) ←
      if name = "YAML".toList then do
        let (c, major) ← readVersionNumber? start
        if !c.sees (· == '.') then none
        else
          let (c, minor) ← readVersionNumber? c.skip
          some (c, Token.version major minor)
      else if name = "TAG".toList then do
        let (c, handle) ← readHandle? start
        if !(handle == ['!'] || (2 ≤ handle.length && handle.getLast? == some '!')) then none
        else if !c.sees isSpaceOrTab then none
        else
          let (c, text) ← tagText? true (c.skipWhile isSpaceOrTab)
          if text.isEmpty || !c.seesGap then none else some (c, Token.tagDirective handle text)
      else none
    return (← c.skipIdleLine?, token)

/-- Reads the name of an anchor or an alias. -/
private def readName? (c : Cursor) : Option (Cursor × String) :=
  let name := c.skip.rest.takeWhile isNameCharacter
  let c := c.skip (name.length + 1)
  if name.isEmpty || !(c.seesGap || c.sees ['?', ':', ',', ']', '\x7d', '%', '@', '`'].contains) then none
  else some (c, .ofList name)

/-! ### One token -/

/-- A line that ends a document, or starts one. -/
private def fetchMarker? (s : Scanner) (t : Token) : Option Scanner := do
  let s ← (s.unroll none).dropPending?
  return { s.take t 3 with keyAllowed := false }

private def fetchDirective? (s : Scanner) : Option Scanner := do
  let s ← (s.unroll none).dropPending?
  let (cursor, t) ← readDirective? s.cursor
  return { s.push t with cursor, keyAllowed := false }

private def fetchFlowStart? (s : Scanner) (t : Token) : Option Scanner := do
  let s ← s.savePending?
  return { s.take t with pending := none :: s.pending, keyAllowed := true }

private def fetchFlowEnd? (s : Scanner) (t : Token) : Option Scanner := do
  let s ← s.dropPending?
  let pending := if s.inFlow then s.pending.drop 1 else s.pending
  return { s.take t with pending, keyAllowed := false }

private def fetchFlowEntry? (s : Scanner) : Option Scanner := do
  let s ← s.dropPending?
  return { s.take .flowEntry with keyAllowed := true }

/-- Opens a block collection for an entry at the cursor, which has to be in its place. -/
private def rollHere? (s : Scanner) (t : Token) : Option Scanner :=
  if s.inFlow then some s
  else if s.keyAllowed then some (s.roll s.cursor.column s.tokens.size t)
  else none

private def fetchBlockEntry? (s : Scanner) : Option Scanner := do
  let s ← (← s.rollHere? .blockSequenceStart).dropPending?
  return { s.take .blockEntry with keyAllowed := true }

private def fetchKey? (s : Scanner) : Option Scanner := do
  let s ← (← s.rollHere? .blockMappingStart).dropPending?
  return { s.take .key with keyAllowed := !s.inFlow }

private def fetchValue? (s : Scanner) : Option Scanner :=
  match s.pending with
  | some key :: rest =>
    let s := s.insertToken key.position .key
    let s := s.roll key.column key.position .blockMappingStart
    some { s.take .value with pending := none :: rest, keyAllowed := false }
  | _ => do
    let s ← s.rollHere? .blockMappingStart
    return { s.take .value with keyAllowed := !s.inFlow }

/-- A token that is, or begins, a node which may be a key. -/
private def fetchNode? (s : Scanner) (read : Cursor → Option (Cursor × Token)) : Option Scanner := do
  let s ← s.savePending?
  let (cursor, t) ← read s.cursor
  return { s.push t with cursor, keyAllowed := false }

private def fetchBlockScalar? (s : Scanner) (folded : Bool) : Option Scanner := do
  let s ← s.dropPending?
  let (cursor, text) ← readBlock? folded s.indent s.cursor
  return { s.push (.scalar text false) with cursor, keyAllowed := true }

private def fetchPlain? (s : Scanner) : Option Scanner := do
  let s ← s.savePending?
  let indent := match s.indent with
    | some n => n + 1
    | none => 0
  let (cursor, text, passedBreak) ← readPlain? s.inFlow indent s.cursor
  return { s.push (.scalar text true) with cursor, keyAllowed := passedBreak }

/-- May a plain scalar begin here? -/
private def startsPlain (s : Scanner) (c : Char) : Bool :=
  (!s.cursor.seesGap && !("-?:,[]\x7b\x7d#&*!|>'\"%@`".toList.contains c)) ||
    (c == '-' && !s.cursor.sees isSpaceOrTab 1) ||
    (!s.inFlow && (c == '?' || c == ':') && !s.cursor.seesGap 1)

/-- Reads the token at the cursor, whose first character is `c`. -/
private def fetch? (s : Scanner) (c : Char) : Option Scanner :=
  if s.cursor.column == 0 && c == '%' then s.fetchDirective?
  else if s.cursor.seesMarker '-' then s.fetchMarker? .documentStart
  else if s.cursor.seesMarker '.' then s.fetchMarker? .documentEnd
  else if c = '[' then s.fetchFlowStart? .flowSequenceStart
  else if c = '\x7b' then s.fetchFlowStart? .flowMappingStart
  else if c = ']' then s.fetchFlowEnd? .flowSequenceEnd
  else if c = '\x7d' then s.fetchFlowEnd? .flowMappingEnd
  else if c = ',' then s.fetchFlowEntry?
  else if c = '-' && s.cursor.seesGap 1 then s.fetchBlockEntry?
  else if c = '?' && (s.inFlow || s.cursor.seesGap 1) then s.fetchKey?
  else if c = ':' && (s.inFlow || s.cursor.seesGap 1) then s.fetchValue?
  else if c = '*' then s.fetchNode? fun c => (readName? c).map fun (c, name) => (c, .alias name)
  else if c = '&' then s.fetchNode? fun c => (readName? c).map fun (c, name) => (c, .anchor name)
  else if c = '!' then s.fetchNode? fun c => readTag? c s.inFlow
  else if c = '|' && !s.inFlow then s.fetchBlockScalar? false
  else if c = '>' && !s.inFlow then s.fetchBlockScalar? true
  else if c = '\'' || c = '"' then
    s.fetchNode? fun cursor => (readQuoted? c cursor).map fun (cursor, text) => (cursor, .scalar text false)
  else if s.startsPlain c then s.fetchPlain?
  else none

/-- Reads all tokens from the cursor on. -/
private def run? (s : Scanner) : (fuel : Nat) → Option (Array Token)
  | 0 => none
  | fuel + 1 => do
    let s ← (s.passGap (s.cursor.rest.length + 1)).dropStale?
    let s := s.unroll (some s.cursor.column)
    match s.cursor.peek? with
    | some c => run? (← s.fetch? c) fuel
    | none =>
      let s ← (s.unroll none).dropPending?
      return s.tokens

end Scanner

/-- The tokens of a document; a byte order mark at its start does not count. -/
def Token.scan? (source : List Char) : Option (List Token) :=
  let source :=
    match source with
    | '\uFEFF' :: rest => rest
    | _ => source
  if source.all isAllowed then
    (Scanner.run? { cursor := { rest := source } } (source.length + 1)).map Array.toList
  else none

end RosRecipes.Yaml
