import RosRecipes.Table
import RosRecipes.Yaml.Token.Scan

/-!
# Nodes of a YAML document

The tokens of a document form a tree of scalars, sequences and mappings, each perhaps with a tag.  Anchors are
numbered, and an alias refers to a number.

* `Node.ofTokens?` builds the tree; `none` inside of `some` is a document without any content.

An anchor gets as its number the number of distinct names of anchors before it, so a name that is used
again may share its number with a later one; an alias then means the last node of that number.
-/

namespace RosRecipes.Yaml

/-- The tag of a node; an empty one is none. -/
structure Properties where
  anchor : Option Nat := none
  tag : List Char := []
deriving DecidableEq, Repr

inductive Node where
  | alias (number : Nat)
  | scalar (text : String) (plain : Bool) (properties : Properties)
  | sequence (items : List Node) (properties : Properties)
  | mapping (entries : List (Node × Node)) (properties : Properties)
deriving Repr

namespace Node

/-- A node that is not written. -/
def empty : Node := .scalar "" true {}

structure Reader where
  tokens : List Token
  anchors : Table String Nat := ∅
  /-- What the handles of tags stand for. -/
  handles : List (List Char × List Char) := []

abbrev Reading (α : Type) := StateT Reader Option α

private def peek? : Reading (Option Token) := do return (← get).tokens.head?

private def advance : Reading Unit := modify fun r => { r with tokens := r.tokens.drop 1 }

/-- Is the next token one of these? -/
private def sees (ts : List Token) : Reading Bool := do return (← peek?).any ts.contains

/-- Passes the next token if it is the given one. -/
private def passes (t : Token) : Reading Bool := do
  if ← sees [t] then advance; return true
  else return false

private def expect (t : Token) : Reading Unit := do if !(← passes t) then failure

private def readAnchor : Reading (Option Nat) := do
  match ← peek? with
  | some (.anchor name) =>
    advance
    let r ← get
    let number := r.anchors.size
    set { r with anchors := r.anchors.insert name number }
    return some number
  | _ => return none

private def readTag : Reading (List Char) := do
  match ← peek? with
  | some (.tag handle suffix) =>
    advance
    if handle.isEmpty then return suffix
    else
      match (← get).handles.lookup handle with
      | some start => return start ++ suffix
      | none => failure
  | _ => return []

private def readProperties : Reading Properties := do
  match ← readAnchor with
  | some number => return { anchor := some number, tag := ← readTag }
  | none =>
    let tag ← readTag
    return { anchor := ← readAnchor, tag }

mutual

/-- Reads a node.  Block collections begin only where `block` holds, and a sequence may do without
indentation where `indentless` holds. -/
private def read (block indentless : Bool) : (fuel : Nat) → Reading Node
  | 0 => failure
  | fuel + 1 => do
    match ← peek? with
    | some (.alias name) =>
      advance
      match (← get).anchors.get? name with
      | some number => return .alias number
      | none => failure
    | _ =>
      let properties ← readProperties
      match ← peek? with
      | some .blockEntry =>
        if indentless then return .sequence (← readIndentless [] fuel) properties
        else if properties = {} then failure
        else return .scalar "" true properties
      | some (.scalar text plain) =>
        advance
        if properties.tag = ['!'] then return .scalar text plain { properties with tag := [] }
        else return .scalar text plain properties
      | some .flowSequenceStart =>
        advance
        return .sequence (← readFlowSequence [] fuel) properties
      | some .flowMappingStart =>
        advance
        return .mapping (← readFlowMapping [] fuel) properties
      | some .blockSequenceStart =>
        if block then
          advance
          return .sequence (← readBlockSequence [] fuel) properties
        else if properties = {} then failure
        else return .scalar "" true properties
      | some .blockMappingStart =>
        if block then
          advance
          return .mapping (← readBlockMapping [] fuel) properties
        else if properties = {} then failure
        else return .scalar "" true properties
      | _ =>
        if properties = {} then failure
        else return .scalar "" true properties

/-- Reads a node, or none before the given tokens. -/
private def readUnless (ends : List Token) (block indentless : Bool) : (fuel : Nat) → Reading Node
  | 0 => failure
  | fuel + 1 => do if ← sees ends then return empty else read block indentless fuel

/-- Reads the entries of an indented sequence. -/
private def readBlockSequence (items : List Node) : (fuel : Nat) → Reading (List Node)
  | 0 => failure
  | fuel + 1 => do
    if ← passes .blockEntry then
      let item ← readUnless [.blockEntry, .blockEnd] true false fuel
      readBlockSequence (item :: items) fuel
    else
      expect .blockEnd
      return items.reverse

/-- Reads the entries of a sequence that stands at the column of its key. -/
private def readIndentless (items : List Node) : (fuel : Nat) → Reading (List Node)
  | 0 => failure
  | fuel + 1 => do
    if ← passes .blockEntry then
      let item ← readUnless [.blockEntry, .key, .value, .blockEnd] true false fuel
      readIndentless (item :: items) fuel
    else return items.reverse

/-- Reads the entries of an indented mapping. -/
private def readBlockMapping (entries : List (Node × Node)) : (fuel : Nat) → Reading (List (Node × Node))
  | 0 => failure
  | fuel + 1 => do
    if ← passes .key then
      let key ← readUnless [.key, .value, .blockEnd] true true fuel
      let value ←
        if ← passes .value then readUnless [.key, .value, .blockEnd] true true fuel else pure empty
      readBlockMapping ((key, value) :: entries) fuel
    else
      expect .blockEnd
      return entries.reverse

/-- Reads the entries of a sequence in brackets.  An entry may be a pair, which is a mapping of its own. -/
private def readFlowSequence (items : List Node) : (fuel : Nat) → Reading (List Node)
  | 0 => failure
  | fuel + 1 => do
    if ← passes .flowSequenceEnd then return items.reverse
    else
      if !items.isEmpty then expect .flowEntry
      if ← passes .flowSequenceEnd then return items.reverse
      else if ← passes .key then
        let key ←
          if ← sees [.value, .flowEntry, .flowSequenceEnd] then
            advance
            pure empty
          else read false false fuel
        let value ←
          if ← passes .value then readUnless [.flowEntry, .flowSequenceEnd] false false fuel else pure empty
        readFlowSequence (.mapping [(key, value)] {} :: items) fuel
      else
        let item ← read false false fuel
        readFlowSequence (item :: items) fuel

/-- Reads the entries of a mapping in braces. -/
private def readFlowMapping (entries : List (Node × Node)) : (fuel : Nat) → Reading (List (Node × Node))
  | 0 => failure
  | fuel + 1 => do
    if ← passes .flowMappingEnd then return entries.reverse
    else
      if !entries.isEmpty then expect .flowEntry
      if ← passes .flowMappingEnd then return entries.reverse
      else if ← passes .key then
        let key ← readUnless [.value, .flowEntry, .flowMappingEnd] false false fuel
        let value ←
          if ← passes .value then readUnless [.flowEntry, .flowMappingEnd] false false fuel else pure empty
        readFlowMapping ((key, value) :: entries) fuel
      else
        let key ← read false false fuel
        readFlowMapping ((key, empty) :: entries) fuel

end

/-- The handles that every document knows. -/
def commonHandles : List (List Char × List Char) :=
  [(['!'], ['!']), (['!', '!'], "tag:yaml.org,2002:".toList)]

/-- Reads the directives before a document; the flag says that a version has been given. -/
private def readDirectives (versionSeen : Bool) : (fuel : Nat) → Reading Unit
  | 0 => failure
  | fuel + 1 => do
    match ← peek? with
    | some (.version major minor) =>
      if versionSeen || major ≠ 1 || !(minor = 1 || minor = 2) then failure
      advance
      readDirectives true fuel
    | some (.tagDirective handle start) =>
      if ((← get).handles.lookup handle).isSome then failure
      advance
      modify fun r => { r with handles := r.handles ++ [(handle, start)] }
      readDirectives versionSeen fuel
    | _ => modify fun r => { r with handles := r.handles ++ commonHandles }

/-- Passes all tokens that end a document. -/
private def passEnds : (fuel : Nat) → Reading Unit
  | 0 => failure
  | fuel + 1 => do if ← passes .documentEnd then passEnds fuel

/-- Reads the only document. -/
private def readDocument (fuel : Nat) : Reading (Option Node) := do
  match ← peek? with
  | none => return none
  | some first =>
    let opened :=
      match first with
      | .version .. | .tagDirective .. | .documentStart => true
      | _ => false
    readDirectives false fuel
    let root ←
      if opened then
        expect .documentStart
        match ← peek? with
        | none | some (.version ..) | some (.tagDirective ..) | some .documentStart | some .documentEnd =>
          pure empty
        | _ => read true false fuel
      else read true false fuel
    passEnds fuel
    if (← peek?).isSome then failure
    return some root

/-- The tree of the only document that the tokens hold. -/
def ofTokens? (tokens : List Token) : Option (Option Node) :=
  (readDocument (4 * tokens.length + 16) { tokens }).map (·.1)

end Node

end RosRecipes.Yaml
