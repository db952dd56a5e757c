import RosRecipes.Naming

/-!
# Expressions of Nix

The part of the Nix language that recipes are written in, with its layout (`Expression.print`), and the names that occur
in an expression, each with what binds it there (`Expression.occurrences`).  A recursive set binds the names of its own
attributes, and hides parameters of the same names.
-/

namespace RosRecipes.Nix

inductive Expression where
  /-- A name, and the attributes that are selected from it, with the dots before them. -/
  | reference (name selection : String)
  /-- A literal, with the text that is between its quotes. -/
  | text (body : String)
  /-- A path or a truth value. -/
  | constant (spelling : String)
  /-- A list, with the blanks before each item and at the end. -/
  | list (lead close : String) (items : List Expression)
  /-- A set.  Its attributes have the blanks before them, their names, and their values. -/
  | set (recursive : Bool) (close : String) (attributes : List (String × String × Expression))
  | call (called argument : Expression)
  /-- Names in the body that nothing else binds are attributes of the scope. -/
  | within (scope body : Expression)
  | function (parameters : List String) (body : Expression)

/-- What a name may be bound by. -/
inductive Binder where
  | parameter
  /-- An attribute of a recursive set. -/
  | attribute
deriving DecidableEq, Repr

/-- The names that are bound at some place. -/
abbrev Scope := String → Option Binder

namespace Scope

/-- Nothing is bound. -/
def empty : Scope := fun _ => none

/-- Names that are bound further inside hide those outside. -/
def bind (s : Scope) (binder : Binder) (names : List String) : Scope :=
  fun name => if name ∈ names then some binder else s name

theorem bind_of_mem {s : Scope} {binder : Binder} {names : List String} {name : String} (h : name ∈ names) :
    s.bind binder names name = some binder := if_pos h

theorem bind_of_not_mem {s : Scope} {binder : Binder} {names : List String} {name : String} (h : name ∉ names) :
    s.bind binder names name = s name := if_neg h

/-- More binders leave no name free that was bound. -/
theorem isSome_bind {s : Scope} {binder : Binder} {names : List String} {name : String} (h : (s name).isSome) :
    (s.bind binder names name).isSome := by
  unfold bind
  split
  · rfl
  · exact h

end Scope

namespace Expression

/-- The names of attributes. -/
def attributeNames (attributes : List (String × String × Expression)) : List String := attributes.map (·.2.1)

mutual

/-- An expression as it is written. -/
def print : Expression → String
  | .reference name selection => name ++ selection
  | .text body => quoted body
  | .constant spelling => spelling
  | .list lead close items => "[" ++ printItems lead items ++ close ++ "]"
  | .set recursive close attributes =>
    (if recursive then "rec " else "") ++ "\x7b\n" ++ printAttributes attributes ++ close ++ "\x7d"
  | .call called argument => called.print ++ " " ++ argument.print
  | .within scope body => "with " ++ scope.print ++ "; " ++ body.print
  | .function parameters body => "\x7b " ++ String.intercalate ", " parameters ++ " \x7d:\n" ++ body.print

def printItems (lead : String) : List Expression → String
  | [] => ""
  | item :: items => lead ++ item.print ++ printItems lead items

def printAttributes : List (String × String × Expression) → String
  | [] => ""
  | (lead, name, value) :: attributes =>
    lead ++ name ++ " = " ++ value.print ++ ";\n" ++ printAttributes attributes

end

mutual

/-- The names that occur in an expression, from left to right, with what binds each.  Names in the body of a `with` are
left out, since they may be attributes of its scope, and so is what the interpolations of a text mention. -/
def occurrences (s : Scope) : Expression → List (String × Option Binder)
  | .reference name _ => [(name, s name)]
  | .text _ => []
  | .constant _ => []
  | .list _ _ items => itemOccurrences s items
  | .set recursive _ attributes =>
    attributeOccurrences (if recursive then s.bind .attribute (attributeNames attributes) else s) attributes
  | .call called argument => called.occurrences s ++ argument.occurrences s
  | .within scope _ => scope.occurrences s
  | .function parameters body => body.occurrences (s.bind .parameter parameters)

def itemOccurrences (s : Scope) : List Expression → List (String × Option Binder)
  | [] => []
  | item :: items => item.occurrences s ++ itemOccurrences s items

def attributeOccurrences (s : Scope) : List (String × String × Expression) → List (String × Option Binder)
  | [] => []
  | (_, _, value) :: attributes => value.occurrences s ++ attributeOccurrences s attributes

end

/-- The names that occur in an expression, whatever binds them. -/
def names (e : Expression) : List String := (e.occurrences .empty).map (·.1)

attribute [local simp] print printItems printAttributes occurrences itemOccurrences attributeOccurrences

theorem itemOccurrences_eq (s : Scope) (items : List Expression) :
    itemOccurrences s items = items.flatMap (·.occurrences s) := by
  induction items with
  | nil => rfl
  | cons item items ih => simp [ih]

theorem attributeOccurrences_append (s : Scope) (attributes more : List (String × String × Expression)) :
    attributeOccurrences s (attributes ++ more) = attributeOccurrences s attributes ++ attributeOccurrences s more := by
  induction attributes with
  | nil => rfl
  | cons a attributes ih => simp [ih]

theorem printItems_eq (lead : String) (items : List Expression) :
    printItems lead items = String.join (items.map fun item => lead ++ item.print) := by
  induction items with
  | nil => rfl
  | cons item items ih => simp [ih, String.join_cons]

theorem printAttributes_append (attributes more : List (String × String × Expression)) :
    printAttributes (attributes ++ more) = printAttributes attributes ++ printAttributes more := by
  induction attributes with
  | nil => simp
  | cons a attributes ih => simp [ih, String.append_assoc]

end Expression

end RosRecipes.Nix
