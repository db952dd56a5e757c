import RosRecipes.Text.Search
import RosRecipes.Text.Utf8

/-!
# Events of an XML document

A document is read as a sequence of events: tags, texts, and sections that are taken literally.  Comments,
processing instructions, declarations and document types give no event.  Reading does not validate; it
demands that tags end, that a closing tag repeats the name of the tag it closes, and that `<!` and `<?` begin
one of the constructs above.

* `Document.read` gives the events up to the end of the document, or up to the first place that breaks the rules.

Positions are byte offsets.  They do not count a byte order mark at the start of the document.
-/

namespace RosRecipes.Xml

/-- The attributes of a tag, as far as they are well formed. -/
structure Attributes where
  /-- Names and values, with the references not expanded. -/
  pairs : List (String × List Char) := []
  /-- Something that is no attribute, or a second one of the same name, follows the pairs. -/
  malformed : Bool := false
deriving DecidableEq, Repr

structure Tag where
  name : String
  attributes : Attributes
deriving DecidableEq, Repr

inductive Event where
  /-- An opening tag that ends before byte `stop`. -/
  | opening (tag : Tag) (stop : Nat)
  /-- A tag that opens and closes an element. -/
  | selfClosing (tag : Tag) (stop : Nat)
  /-- A closing tag that ends before byte `stop`. -/
  | closing (stop : Nat)
  /-- A text, with the references not expanded. -/
  | text (raw : List Char)
  /-- A text that is taken literally. -/
  | literal (text : List Char)
deriving DecidableEq, Repr

/-- The events of a document, and whether they reach its end. -/
structure Document where
  events : List Event
  complete : Bool
deriving DecidableEq, Repr

/-- The blanks inside of tags. -/
def isTagBlank (c : Char) : Bool := c == ' ' || c == '\t' || c == '\r' || c == '\n'

/-- What stands before the first `stop`, and what follows it; everything and nothing if there is none. -/
def cutAt (stop : Char) (s : List Char) : List Char × List Char :=
  (s.takeWhile (· ≠ stop), (s.dropWhile (· ≠ stop)).drop 1)

/-- Splits the attributes of a tag.  A name ends at an equals sign or a blank, but never before its first
character; the value stands between quotes of one kind. -/
private def Attributes.readFrom (seen : List (String × List Char)) (s : List Char) : (fuel : Nat) → Attributes
  | 0 => ⟨seen.reverse, true⟩
  | fuel + 1 =>
    match s.dropWhile isTagBlank with
    | [] => ⟨seen.reverse, false⟩
    | c :: rest =>
      let inName := fun (c : Char) => !(c == '=' || isTagBlank c)
      let name := String.ofList (c :: rest.takeWhile inName)
      match (rest.dropWhile inName).dropWhile isTagBlank with
      | '=' :: after =>
        if seen.any (·.1 == name) then ⟨seen.reverse, true⟩
        else
          match after.dropWhile isTagBlank with
          | quote :: after =>
            if (quote = '"' || quote = '\'') && after.contains quote then
              let (value, rest) := cutAt quote after
              Attributes.readFrom ((name, value) :: seen) rest fuel
            else ⟨seen.reverse, true⟩
          | [] => ⟨seen.reverse, true⟩
      | _ => ⟨seen.reverse, true⟩

def Attributes.read (s : List Char) : Attributes := Attributes.readFrom [] s (s.length + 1)

/-- The tag with the given content between the angle brackets. -/
def Tag.read (content : List Char) : Tag :=
  ⟨.ofList (content.takeWhile (!isTagBlank ·)), .read (content.dropWhile (!isTagBlank ·))⟩

/-- What stands between an opening angle bracket and the matching one. -/
inductive Markup where
  | opening (tag : Tag)
  | selfClosing (tag : Tag)
  | closing (name : String)
  | literal (text : List Char)
  | ignored
deriving DecidableEq, Repr

/-- Cuts at the first `>` before which the text, given in reverse, satisfies `done`. -/
def cutWhen? (done : List Char → Bool) (before : List Char) : List Char → Option (List Char × List Char)
  | [] => none
  | c :: rest =>
    if c = '>' && done before then some (before.reverse, rest) else cutWhen? done (c :: before) rest

/-- Cuts at the first `>` outside of quotes. -/
def cutTag? (quote : Option Char) (before : List Char) : List Char → Option (List Char × List Char)
  | [] => none
  | c :: rest =>
    match quote with
    | some q => cutTag? (if c = q then none else quote) (c :: before) rest
    | none =>
      if c = '>' then some (before.reverse, rest)
      else cutTag? (if c = '"' || c = '\'' then some c else none) (c :: before) rest

/-- Does the text begin with the given capitals, in upper or lower case? -/
def startsWithAnyCase (capitals s : List Char) : Bool :=
  Text.startsWith capitals (s.map Char.toUpper)

def isComment (content : List Char) : Bool := Text.startsWith ['!', '-', '-'] content

def isLiteral (content : List Char) : Bool :=
  startsWithAnyCase ['!', '[', 'C', 'D', 'A', 'T', 'A', '['] content

def isDocumentType (content : List Char) : Bool :=
  startsWithAnyCase ['!', 'D', 'O', 'C', 'T', 'Y', 'P', 'E'] content &&
    (content.drop 8).any (!isTagBlank ·)

/-- Reads what follows `<!`; the text given starts with the exclamation mark. -/
def readBang? (s : List Char) : Option (Markup × List Char) :=
  match s with
  | _ :: '-' :: _ => do
    let (content, rest) ←
      cutWhen? (fun before => before.length > 4 && Text.startsWith ['-', '-'] before) [] s
    if isComment content then some (.ignored, rest) else none
  | _ :: '[' :: _ => do
    let (content, rest) ← cutWhen? (Text.startsWith [']', ']']) [] s
    if isLiteral content then some (.literal ((content.drop 8).dropLast.dropLast), rest) else none
  | _ :: 'D' :: _ | _ :: 'd' :: _ => do
    let (content, rest) ← cutWhen? (fun before => before.count '<' == before.count '>') [] s
    if isDocumentType content then some (.ignored, rest) else none
  | _ => none

/-- The name in a closing tag, without the blanks after it. -/
def closingName (content : List Char) : List Char :=
  if content.all isTagBlank then content else (content.reverse.dropWhile isTagBlank).reverse

/-- Reads what follows `<`, which is not the end of the document. -/
def readMarkup? (s : List Char) : Option (Markup × List Char) :=
  match s with
  | '!' :: _ => readBang? s
  | '/' :: content =>
    let (content, rest) := cutAt '>' content
    some (.closing (.ofList (closingName content)), rest)
  | '?' :: content =>
    let (content, rest) := cutAt '>' content
    if 2 ≤ content.length && content.getLast? == some '?' then some (.ignored, rest) else none
  | _ => do
    let (content, rest) ← cutTag? none [] s
    if content.getLast? == some '/' then some (.selfClosing (.read content.dropLast), rest)
    else some (.opening (.read content), rest)

/-- Reads the rest of a document.  `offset` is the position, `openTags` are the names of the open elements,
innermost first. -/
def Document.readFrom (openTags : List String) (offset : Nat) (s : List Char) : (fuel : Nat) → Document
  | 0 => ⟨[], false⟩
  | fuel + 1 =>
    match s with
    | [] => ⟨[], true⟩
    | ['<'] => ⟨[], true⟩
    | '<' :: inside =>
      match readMarkup? inside with
      | none => ⟨[], false⟩
      | some (markup, rest) =>
        let stop := offset + Text.byteLength s - Text.byteLength rest
        let more := fun (openTags : List String) (event : Option Event) =>
          let rest := Document.readFrom openTags stop rest fuel
          { rest with events := event.toList ++ rest.events }
        match markup with
        | .opening tag => more (tag.name :: openTags) (some (.opening tag stop))
        | .selfClosing tag => more openTags (some (.selfClosing tag stop))
        | .literal text => more openTags (some (.literal text))
        | .ignored => more openTags none
        | .closing name =>
          match openTags with
          | [] => ⟨[], false⟩
          | opened :: openTags =>
            if name = opened then more openTags (some (.closing stop)) else ⟨[], false⟩
    | _ =>
      let raw := s.takeWhile (· ≠ '<')
      let after := Document.readFrom openTags (offset + Text.byteLength raw) (s.dropWhile (· ≠ '<')) fuel
      { after with events := .text raw :: after.events }

/-- The text without a byte order mark at its start. -/
def dropByteOrderMark : List Char → List Char
  | '\uFEFF' :: rest => rest
  | s => s

/-- Reads a document. -/
def Document.read (source : List Char) : Document :=
  Document.readFrom [] 0 (dropByteOrderMark source) (source.length + 1)

end RosRecipes.Xml
