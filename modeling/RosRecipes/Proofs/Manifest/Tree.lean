import RosRecipes.Manifest.Reading

/-!
# Element trees

A well-nested document is a list of trees of elements and texts (`Xml.Node`); its events come from a walk through
them (`Xml.events`).  Here a manifest is read off the trees, without the events: only the children of the root count,
and the build types among the children of its exports.

* `Manifest.Describes` says which documents describe a manifest,
* `Manifest.ofRoot` is the manifest that they describe.
-/

namespace RosRecipes.Xml

/-- A part of a document.  The positions are those where the tags end. -/
inductive Node where
  | element (tag : Tag) (start : Nat) (children : List Node) (stop : Nat)
  /-- An element that is opened and closed by one tag. -/
  | void (tag : Tag) (stop : Nat)
  /-- A text, with the references not expanded. -/
  | text (raw : List Char)
  /-- A text that is taken literally. -/
  | literal (text : List Char)

mutual

/-- The events of a part, in document order. -/
def Node.events : Node → List Event
  | .element tag start children stop => .opening tag start :: (events children ++ [.closing stop])
  | .void tag stop => [.selfClosing tag stop]
  | .text raw => [.text raw]
  | .literal content => [.literal content]

/-- The events of several parts. -/
def events : List Node → List Event
  | [] => []
  | node :: nodes => node.events ++ events nodes

end

/-- The attributes are attributes, and the references in their values are known. -/
def Tag.WellFormed (tag : Tag) : Prop :=
  tag.attributes.malformed = false ∧ ∀ pair ∈ tag.attributes.pairs, (expand? pair.2).isSome

mutual

/-- All tags are well formed, and the references in all texts are known. -/
def Node.WellFormed : Node → Prop
  | .element tag _ children _ => tag.WellFormed ∧ WellFormed children
  | .void tag _ => tag.WellFormed
  | .text raw => (expand? raw).isSome
  | .literal _ => True

def WellFormed : List Node → Prop
  | [] => True
  | node :: nodes => node.WellFormed ∧ WellFormed nodes

end

/-- The value of an attribute. -/
def Tag.value? (tag : Tag) (name : String) : Option String :=
  (tag.attributes.pairs.find? (·.1 = name)).map fun pair => .ofList ((expand? pair.2).getD [])

/-- The text of a part itself: elements have none, since what they hold is theirs. -/
def Node.ownText : Node → List Char
  | .element .. => []
  | .void .. => []
  | .text raw => (expand? raw).getD []
  | .literal content => content

/-- An element, however it is closed. -/
structure Element where
  tag : Tag
  children : List Node
  /-- Where its opening and its closing tag end, if it has two. -/
  span : Option (Nat × Nat)

def Node.element? : Node → Option Element
  | .element tag start children stop => some ⟨tag, children, some (start, stop)⟩
  | .void tag _ => some ⟨tag, [], none⟩
  | .text _ => none
  | .literal _ => none

/-- The elements among some parts. -/
def elements (nodes : List Node) : List Element := nodes.filterMap Node.element?

/-- The elements directly inside of an element. -/
def Element.inside (e : Element) : List Element := elements e.children

/-- The elements of a name among others. -/
def named (name : String) (es : List Element) : List Element := es.filter (·.tag.name = name)

/-- The text directly inside of an element, without the blanks at its ends. -/
def Element.text (e : Element) : String := .ofList (Text.trim (e.children.flatMap Node.ownText))

end RosRecipes.Xml

namespace RosRecipes.Manifest

open Xml (Node Element elements named)

/-- Two steps of reading succeed if both of them do. -/
theorem bind_eq_ok_iff {α β : Type} {x : Except Fault α} {f : α → Except Fault β} {b : β} :
    x.bind f = .ok b ↔ ∃ a, x = .ok a ∧ f a = .ok b := by
  cases x with
  | error fault => exact ⟨nofun, fun ⟨_, h, _⟩ => nomatch h⟩
  | ok a =>
    refine ⟨fun h => ⟨a, rfl, h⟩, ?_⟩
    rintro ⟨_, ha, h⟩
    cases ha
    exact h

/-! ### Conditions and formats -/

/-- The condition of an element is missing, blank, or can be read. -/
def ValidCondition (e : Element) : Prop :=
  ∀ raw, e.tag.value? "condition" = some raw → Text.trimmed raw = "" ∨ ∃ c, Condition.parse (Text.trimmed raw) = .ok c

/-- The condition of an element, if it has one. -/
def conditionOf (e : Element) : Option Condition :=
  (e.tag.value? "condition").bind fun raw =>
    if Text.trimmed raw = "" then none else (Condition.parse (Text.trimmed raw)).toOption

/-- The number that decimal digits write. -/
def decimal (digits : List Char) : Nat := digits.foldl (fun n c => 10 * n + (c.toNat - '0'.toNat)) 0

/-- Up to blanks around it, the text is a number below 256 in decimal digits, perhaps after a plus sign. -/
def WritesFormat (text : String) (format : Nat) : Prop :=
  ∃ digits : List Char, (Text.trim text.toList = digits ∨ Text.trim text.toList = '+' :: digits) ∧ digits ≠ [] ∧
    (∀ c ∈ digits, c.isDigit) ∧ decimal digits = format ∧ format < 256

/-- The format that a tag gives: the first one if it gives none. -/
def GivesFormat (tag : Xml.Tag) (format : Nat) : Prop :=
  match tag.value? "format" with
  | none => format = 1
  | some text => WritesFormat text format

/-! ### Documents -/

/-- The build types in the exports among some elements. -/
def exportedTypes (es : List Element) : List Element := (named "export" es).flatMap fun e => named "build_type" e.inside

/-- The document has one root that describes a manifest of a format. -/
structure Describes (document : List Node) (root : Element) (format : Nat) : Prop where
  single : elements document = [root]
  tag : root.tag.name = "package"
  number : GivesFormat root.tag format
  dependencies : ∀ e ∈ root.inside, Role.ofTag? format e.tag.name ≠ none → e.text ≠ "" ∧ ValidCondition e
  buildTypes : ∀ e ∈ exportedTypes root.inside, ValidCondition e
  name : ∃ e, (named "name" root.inside).getLast? = some e ∧ e.text ≠ ""
  version : ∃ e, (named "version" root.inside).getLast? = some e ∧ e.text ≠ ""

/-- What an element says as a child of the root: a declaration for each of its roles. -/
def declarations (format : Nat) (e : Element) : List Declaration :=
  ((Role.ofTag? format e.tag.name).getD []).map fun role => ⟨e.text, role, conditionOf e⟩

/-- The markup inside of an element. -/
def markupOf (source : List Char) (e : Element) : String :=
  e.span.elim "" fun span => innerMarkup source span.1 span.2

/-- The manifest that a root describes. -/
def ofRoot (source : List Char) (root : Element) (format : Nat) : Manifest where
  format
  name := ((named "name" root.inside).getLast?.map (·.text)).getD ""
  version := ((named "version" root.inside).getLast?.map (·.text)).getD ""
  description := ((named "description" root.inside).getLast?.map (markupOf source)).getD ""
  licenses := (named "license" root.inside).map (·.text)
  buildTypes := (exportedTypes root.inside).map fun e => ⟨e.text, conditionOf e⟩
  dependencies := root.inside.flatMap (declarations format)

end RosRecipes.Manifest
