import RosRecipes.SharedStart

/-!
# Edit scripts

A script leads from one list to another: each of its blocks keeps, removes or inserts some elements.

* `Script.before` and `Script.after` are the two lists that a script connects,
* `Script.changes` are the places where they differ, with what is kept between them.
-/

namespace RosRecipes.Diff

inductive Kind where
  | keep
  | remove
  | insert
deriving DecidableEq, Repr

/-- Neighbouring elements that fare alike. -/
structure Block (α : Type) where
  kind : Kind
  items : List α
deriving DecidableEq, Repr

abbrev Script (α : Type) := List (Block α)

variable {α : Type}

/-- The elements of a block that the first list has. -/
def Block.before (b : Block α) : List α := if b.kind = .insert then [] else b.items

/-- The elements of a block that the second list has. -/
def Block.after (b : Block α) : List α := if b.kind = .remove then [] else b.items

namespace Script

/-- The list that a script starts from. -/
def before (s : Script α) : List α := s.flatMap Block.before

/-- The list that a script leads to. -/
def after (s : Script α) : List α := s.flatMap Block.after

/-- A block, unless it is empty. -/
def block (kind : Kind) (items : List α) : Script α := if items.isEmpty then [] else [⟨kind, items⟩]

theorem before_block (kind : Kind) (items : List α) :
    before (block kind items) = if kind = .insert then [] else items := by
  cases items <;> simp [block, before, Block.before]

theorem after_block (kind : Kind) (items : List α) :
    after (block kind items) = if kind = .remove then [] else items := by
  cases items <;> simp [block, after, Block.after]

@[simp] theorem before_append (s t : Script α) : before (s ++ t) = before s ++ before t := by simp [before]

@[simp] theorem after_append (s t : Script α) : after (s ++ t) = after s ++ after t := by simp [after]

end Script

/-- A place where two lists differ. -/
structure Change (α : Type) where
  /-- What is kept between the change before it and this one. -/
  gap : List α
  removed : List α
  inserted : List α
deriving DecidableEq, Repr

namespace Script

/-- The changes of the rest of a script and what is kept after them, where `c` is the begun change, if there is
one, and `gap` has been kept since the last one. -/
def changesFrom (gap : List α) (c : Option (Change α)) : Script α → List (Change α) × List α
  | [] => (c.toList, gap)
  | ⟨kind, items⟩ :: s =>
    let begun := c.getD ⟨gap, [], []⟩
    match kind with
    | .remove => changesFrom [] (some { begun with removed := begun.removed ++ items }) s
    | .insert => changesFrom [] (some { begun with inserted := begun.inserted ++ items }) s
    | .keep =>
      let (changes, tail) := changesFrom (gap ++ items) none s
      (c.toList ++ changes, tail)

/-- The changes, and what is kept after the last one. -/
def changes (s : Script α) : List (Change α) × List α := changesFrom [] none s

end Script

end RosRecipes.Diff
