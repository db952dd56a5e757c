import RosRecipes.Yaml.Node
import RosRecipes.Yaml.Number

/-!
# Values of YAML

A node stands for a value: plain scalars for the null value, truth values, numbers or texts, quoted ones for
texts, and nodes with a tag of their own for tagged values.  Aliases stand for what they refer to.

* `Value.ofNode?` gives the value of a node, `Value.rules?` the entries of a document, which has to be a mapping.

Values are at most 128 collections deep, and a document follows aliases at most 100 times as often as it has
nodes; so an alias to a node around it has no value.
-/

namespace RosRecipes.Yaml

inductive Value where
  | null
  | bool (b : Bool)
  | number (n : Number)
  | text (s : String)
  | sequence (items : List Value)
  | mapping (entries : List (Value × Value))
  | tagged (tag : String) (value : Value)
deriving Repr, Inhabited

namespace Value

/-- Do two values count as one key?  The order of the entries of a mapping does not matter.  The depth of values
bounds `fuel`. -/
def same : (fuel : Nat) → Value → Value → Bool
  | _, .null, .null => true
  | _, .bool a, .bool b => a == b
  | _, .number a, .number b => a == b
  | _, .text a, .text b => a == b
  | fuel + 1, .tagged a v, .tagged b w => a == b && same fuel v w
  | fuel + 1, .sequence xs, .sequence ys =>
    xs.length == ys.length && (xs.zip ys).all fun (x, y) => same fuel x y
  | fuel + 1, .mapping xs, .mapping ys =>
    xs.length == ys.length &&
      xs.all fun (k, v) => (ys.find? fun (l, _) => same fuel k l).any fun (_, w) => same fuel v w
  | _, _, _ => false

/-- The most collections around a node. -/
def depthLimit : Nat := 128

/-- A bound for the fuel of `same`: each collection may have a tag. -/
def sameFuel : Nat := 2 * depthLimit + 1

/-- Do two entries have the same key? -/
def hasDuplicate : List (Value × Value) → Bool
  | [] => false
  | (k, _) :: rest => (rest.any fun (l, _) => same sameFuel k l) || hasDuplicate rest

/-- The value under a key that is a text; tags around the mapping are looked through. -/
def get? (key : String) : Value → Option Value
  | .mapping entries => (entries.find? fun (k, _) => match k with | .text s => s == key | _ => false).map (·.2)
  | .tagged _ v => v.get? key
  | _ => none

/-- The text that a value is, below its tags. -/
def text? : Value → Option String
  | .text s => some s
  | .tagged _ v => v.text?
  | _ => none

/-! ### Scalars -/

/-- What a plain scalar stands for; `none` if it has no value. -/
def ofPlain? (s : String) : Option Value :=
  if s ∈ ["", "null", "Null", "NULL", "~"] then some .null
  else if s ∈ ["true", "True", "TRUE"] then some (.bool true)
  else if s ∈ ["false", "False", "FALSE"] then some (.bool false)
  else
    match Number.read? s.toList with
    | .number n => some (.number n)
    | .tooLarge => none
    | .notANumber => some (.text s)

/-- What a scalar stands for whose tag is not one of the document's own. -/
def ofScalar? (s : String) (plain : Bool) (tag : List Char) : Option Value :=
  match String.ofList tag with
  | "" => if plain then ofPlain? s else some (.text s)
  | "tag:yaml.org,2002:bool" =>
    if s ∈ ["true", "True", "TRUE"] then some (.bool true)
    else if s ∈ ["false", "False", "FALSE"] then some (.bool false)
    else none
  | "tag:yaml.org,2002:int" =>
    match Number.readInteger s.toList with
    | .number n => some (.number n)
    | _ => none
  | "tag:yaml.org,2002:float" => (Number.real? s.toList).map .number
  | "tag:yaml.org,2002:null" => if s ∈ ["null", "Null", "NULL", "~"] then some .null else none
  | _ => some (.text s)

/-! ### Documents -/

/-- The nodes with an anchor, in the order of the document. -/
def anchored (node : Node) : List (Nat × Node) :=
  match node with
  | .alias _ => []
  | .scalar _ _ p => (p.anchor.map (·, node)).toList
  | .sequence items p => (p.anchor.map (·, node)).toList ++ (items.attach.map fun ⟨n, _⟩ => anchored n).flatten
  | .mapping entries p =>
    (p.anchor.map (·, node)).toList ++
      (entries.attach.map fun ⟨(k, v), _⟩ => anchored k ++ anchored v).flatten
termination_by node
decreasing_by
  all_goals simp_wf
  · have := List.sizeOf_lt_of_mem ‹n ∈ items›
    omega
  all_goals
    have := List.sizeOf_lt_of_mem ‹(k, v) ∈ entries›
    simp only [Prod.mk.sizeOf_spec] at this
    omega

/-- The number of events that a node consists of: collections have two of their own. -/
def eventCount : Node → Nat
  | .alias _ => 1
  | .scalar .. => 1
  | .sequence items _ => 2 + (items.attach.map fun ⟨n, _⟩ => eventCount n).foldr (· + ·) 0
  | .mapping entries _ => 2 + (entries.attach.map fun ⟨(k, v), _⟩ => eventCount k + eventCount v).foldr (· + ·) 0
termination_by node => node
decreasing_by
  all_goals simp_wf
  · have := List.sizeOf_lt_of_mem ‹n ∈ items›
    omega
  all_goals
    have := List.sizeOf_lt_of_mem ‹(k, v) ∈ entries›
    simp only [Prod.mk.sizeOf_spec] at this
    omega

/-- What the aliases of a document refer to. -/
structure Anchors where
  nodes : List (Nat × Node)
  /-- The most aliases that are followed. -/
  limit : Nat

/-- Reading a value counts the aliases that it follows. -/
abbrev Counting (α : Type) := StateT Nat Option α

/-- The node that a node stands for. -/
private def follow (anchors : Anchors) (node : Node) : Counting Node := do
  match node with
  | .alias n =>
    modify (· + 1)
    if anchors.limit < (← get) then failure
    match anchors.nodes.reverse.lookup n with
    | some node => return node
    | none => failure
  | node => return node

private def tagOf : Node → List Char
  | .alias _ => []
  | .scalar _ _ p | .sequence _ p | .mapping _ p => p.tag

/-- The name of a tag of the document's own, which begins with an exclamation mark. -/
private def ownTag? : List Char → Option (List Char)
  | '!' :: name => some name
  | _ => none

/-- A mapping without a repeated key. -/
private def ofEntries? (entries : List (Value × Value)) : Option Value :=
  if hasDuplicate entries then none else some (.mapping entries)

/-- The value of a node with at most `depth` collections around each other. -/
def ofNode? (anchors : Anchors) (depth : Nat) (node : Node) : Counting Value := do
  let node ← follow anchors node
  let own := ownTag? (tagOf node)
  if own = some [] then failure
  let value ←
    match node, depth with
    | .scalar s plain p, _ => liftM (ofScalar? s plain (if own.isSome then [] else p.tag))
    | .sequence items _, depth + 1 => do
      let items ← items.mapM (ofNode? anchors depth)
      pure (Value.sequence items)
    | .mapping entries _, depth + 1 => do
      let entries ← entries.mapM fun (k, v) => do
        let key ← ofNode? anchors depth k
        return (key, ← ofNode? anchors depth v)
      liftM (ofEntries? entries)
    | _, _ => failure
  match own with
  | some name => return .tagged (.ofList name) value
  | none => return value

/-- The text of a scalar, whatever it stands for. -/
private def keyText (anchors : Anchors) (node : Node) : Counting String := do
  match ← follow anchors node with
  | .scalar s _ _ => return s
  | _ => failure

/-- The entries of a document, under the texts of their keys; of a repeated key the last entry counts.  A
document without content has no entries. -/
def rulesOfNode? : Option Node → Option (Table String Value)
  | none => some ∅
  | some root =>
    let anchors := { nodes := anchored root, limit := 100 * eventCount root }
    match root with
    | .scalar "" true _ => some ∅
    | .mapping entries _ => do
      let (entries, _) ← (entries.mapM fun (k, v) => do
        let key ← keyText anchors k
        return (key, ← ofNode? anchors (depthLimit - 1) v)) 0
      return entries.foldl (fun t (k, v) => t.insert k v) ∅
    | _ => none

/-- The entries of a document. -/
def rules? (source : String) : Option (Table String Value) := do
  rulesOfNode? (← Node.ofTokens? (← Token.scan? source.toList))

end Value

end RosRecipes.Yaml
