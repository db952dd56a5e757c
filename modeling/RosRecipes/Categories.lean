import RosRecipes.NameSet

/-!
# Input categories

The inputs of a recipe in four categories, according to when they are needed.
-/

namespace RosRecipes

structure Categories where
  build : NameSet := ∅
  propagated : NameSet := ∅
  check : NameSet := ∅
  native : NameSet := ∅
deriving DecidableEq

/-- Inputs that are added to every recipe as they are given. -/
structure ExtraInputs where
  build : List String := []
  propagated : List String := []
  check : List String := []
  native : List String := []
deriving DecidableEq, Repr

/-- The extra inputs of all categories. -/
def ExtraInputs.all (e : ExtraInputs) : List String := e.build ++ e.propagated ++ e.check ++ e.native

namespace Categories

/-- The inputs of all categories. -/
def all (c : Categories) : NameSet := c.build ∪ c.propagated ∪ c.check ∪ c.native

def extend (c : Categories) (extra : ExtraInputs) : Categories where
  build := c.build ∪ .ofList extra.build
  propagated := c.propagated ∪ .ofList extra.propagated
  check := c.check ∪ .ofList extra.check
  native := c.native ∪ .ofList extra.native

variable {c : Categories} {x : String}

theorem mem_all : x ∈ c.all ↔ x ∈ c.build ∨ x ∈ c.propagated ∨ x ∈ c.check ∨ x ∈ c.native := by
  simp only [all, NameSet.mem_union, or_assoc]

theorem mem_all_extend {extra : ExtraInputs} : x ∈ (c.extend extra).all ↔ x ∈ c.all ∨ x ∈ extra.all := by
  simp only [mem_all, extend, ExtraInputs.all, NameSet.mem_union, NameSet.mem_ofList, List.mem_append]
  grind

end Categories

end RosRecipes
