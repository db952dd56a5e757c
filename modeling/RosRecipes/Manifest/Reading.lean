import RosRecipes.FileTree
import RosRecipes.Manifest.Basic
import RosRecipes.Xml.Entity
import RosRecipes.Xml.Event

/-!
# Reading manifests

A manifest is an XML document with the root `package`.  Its events are followed with the list of open
elements; an element counts when it closes, and only as a child of the root, build types as children of
`export`.  An element's text is the text directly inside of it.  The description keeps its inner markup.

* `Manifest.parse` reads a text, `Manifest.ofEvents` the events of a document.
-/

namespace RosRecipes.Manifest

/-- Why a text is no manifest. -/
inductive Fault where
  | markup
  | unexpectedRoot (tag : String)
  | noPackage
  | unexpectedEnd
  | unbalancedClosing
  | invalidFormat (text : String)
  | emptyElement (tag : String)
  | condition (source : String) (fault : Condition.Fault)
  | missingName
  | missingVersion
  | file (fault : FileFault)
deriving DecidableEq, Repr

def Fault.message : Fault → String
  | .markup => "<xml>"
  | .unexpectedRoot tag => "unexpected root element <" ++ tag ++ ">"
  | .noPackage => "no <package> element"
  | .unexpectedEnd => "unexpected end of document"
  | .unbalancedClosing => "unbalanced closing tag"
  | .invalidFormat text => "invalid format attribute \"" ++ text ++ "\""
  | .emptyElement tag => "empty <" ++ tag ++ "> element"
  | .condition source fault => "Invalid condition: " ++ fault.message source
  | .missingName => "missing <name>"
  | .missingVersion => "missing <version>"
  | .file fault => fault.message

/-- An element that has been opened. -/
structure Frame where
  name : String
  /-- The text of the condition attribute. -/
  condition : Option String
  /-- The text directly inside, so far. -/
  text : List Char := []
  /-- The position after the opening tag. -/
  start : Nat
deriving Repr

/-- What has been read of a manifest. -/
structure Draft where
  format : Nat := 1
  name : Option String := none
  version : Option String := none
  description : String := ""
  licenses : List String := []
  buildTypes : List BuildType := []
  dependencies : List Declaration := []
deriving Repr

/-- The state between two events. -/
structure Progress where
  draft : Draft := {}
  /-- The open elements, innermost first. -/
  frames : List Frame := []
  rootSeen : Bool := false
deriving Repr

/-- The expanded value of an attribute.  Attributes are looked at in their order, up to the wanted one. -/
def attribute? (attributes : Xml.Attributes) (name : String) : Except Fault (Option String) :=
  match attributes.pairs.find? (·.1 = name) with
  | some (_, raw) =>
    match Xml.expand? raw with
    | some value => .ok (some (.ofList value))
    | none => .error .markup
  | none => if attributes.malformed then .error .markup else .ok none

/-- The number below 256 that a text writes in decimal digits, perhaps after a plus sign. -/
def format? (text : String) : Option Nat :=
  let digits :=
    match Text.trim text.toList with
    | '+' :: digits => digits
    | digits => digits
  if digits.isEmpty || !digits.all Char.isDigit then none else (Xml.number? 10 digits).filter (· < 256)

/-- The condition in an attribute; a blank one is none. -/
def condition? (raw : Option String) : Except Fault (Option Condition) :=
  match raw.map Text.trimmed with
  | none => .ok none
  | some source =>
    if source.isEmpty then .ok none
    else
      match Condition.parse source with
      | .ok c => .ok (some c)
      | .error fault => .error (.condition source fault)

/-- The markup between a start position and the last closing tag before a stop position, without the blanks
at its ends. -/
def innerMarkup (source : List Char) (start stop : Nat) : String :=
  let raw := (Text.sliceBytes? start stop source).getD []
  let inner := ((Text.splitLast? ['<', '/'] raw).map (·.1)).getD raw
  .ofList (Text.trim inner)

/-- Takes a closed element into account; `parents` are the names of the elements around it, outermost
first. -/
def Draft.close (draft : Draft) (parents : List String) (frame : Frame) (description : String) :
    Except Fault Draft :=
  let text := String.ofList (Text.trim frame.text)
  if parents = ["package", "export"] ∧ frame.name = "build_type" then do
    let condition ← condition? frame.condition
    return { draft with buildTypes := draft.buildTypes ++ [⟨text, condition⟩] }
  else if parents = ["package"] then
    match frame.name with
    | "name" => .ok { draft with name := some text }
    | "version" => .ok { draft with version := some text }
    | "description" => .ok { draft with description }
    | "license" => .ok { draft with licenses := draft.licenses ++ [text] }
    | tag =>
      match Role.ofTag? draft.format tag with
      | none => .ok draft
      | some roles =>
        if text.isEmpty then .error (.emptyElement tag)
        else do
          let condition ← condition? frame.condition
          let declared := roles.map fun role => Declaration.mk text role condition
          return { draft with dependencies := draft.dependencies ++ declared }
  else .ok draft

/-- Opens an element: the root has to be the first one and may give a format. -/
def Progress.enter (p : Progress) (tag : Xml.Tag) (stop : Nat) : Except Fault (Progress × Frame) := do
  let p ←
    if p.frames.isEmpty then
      if p.rootSeen || tag.name ≠ "package" then throw (.unexpectedRoot tag.name)
      match ← attribute? tag.attributes "format" with
      | none => pure { p with rootSeen := true }
      | some text =>
        match format? text with
        | none => throw (.invalidFormat text)
        | some format => pure { p with rootSeen := true, draft := { p.draft with format } }
    else pure p
  let condition ← attribute? tag.attributes "condition"
  return (p, { name := tag.name, condition, start := stop })

/-- The names of the open elements, outermost first. -/
def Progress.path (p : Progress) : List String := (p.frames.map (·.name)).reverse

/-- Adds to the text of the innermost element. -/
def Progress.addText (p : Progress) (text : List Char) : Progress :=
  match p.frames with
  | [] => p
  | frame :: frames => { p with frames := { frame with text := frame.text ++ text } :: frames }

/-- Follows one event of the document `source`. -/
def Progress.follow (source : List Char) (p : Progress) : Xml.Event → Except Fault Progress
  | .opening tag stop => do
    let (p, frame) ← p.enter tag stop
    return { p with frames := frame :: p.frames }
  | .selfClosing tag stop => do
    let (p, frame) ← p.enter tag stop
    return { p with draft := ← p.draft.close p.path frame "" }
  | .closing stop =>
    match p.frames with
    | [] => .error .unbalancedClosing
    | frame :: frames => do
      let p := { p with frames }
      return { p with draft := ← p.draft.close p.path frame (innerMarkup source frame.start stop) }
  | .text raw =>
    match Xml.expand? raw with
    | none => .error .markup
    | some text => .ok (p.addText text)
  | .literal text => .ok (p.addText text)

/-- The finished manifest: it has a name and a version. -/
def Draft.finish (draft : Draft) : Except Fault Manifest :=
  match draft.name.filter (!·.isEmpty) with
  | none => .error .missingName
  | some name =>
    match draft.version.filter (!·.isEmpty) with
    | none => .error .missingVersion
    | some version =>
      .ok {
        format := draft.format
        name
        version
        description := draft.description
        licenses := draft.licenses
        buildTypes := draft.buildTypes
        dependencies := draft.dependencies }

/-- The manifest that the events of the document `source` describe. -/
def ofEvents (source : List Char) (document : Xml.Document) : Except Fault Manifest := do
  let p ← document.events.foldlM (Progress.follow source) {}
  if !document.complete then throw .markup
  if !p.rootSeen then throw .noPackage
  if !p.frames.isEmpty then throw .unexpectedEnd
  p.draft.finish

/-- The manifest that a text describes. -/
def parse (source : String) : Except Fault Manifest := ofEvents source.toList (.read source.toList)

end RosRecipes.Manifest
