import RosRecipes.Condition.Expression
import RosRecipes.Table

/-!
# Conditions

A dependency may depend on the distribution that recipes are made for.  A context gives the variables of a
distribution, and a condition holds in a context or not.  A variable without a value is empty, and values
are compared as texts.
-/

namespace RosRecipes

namespace Condition

/-- The values of the variables. -/
abbrev Context := Table String String

namespace Context

/-- The value of a variable, empty if it has none. -/
def value (ctx : Context) (name : String) : String := (ctx.get? name).getD ""

/-- Distributions of the first generation. -/
def firstGeneration : List String := ["indigo", "jade", "kinetic", "lunar", "melodic", "noetic"]

/-- Distributions that use the second version of Python. -/
def secondPython : List String := ["indigo", "jade", "kinetic", "lunar", "melodic"]

/-- The variables of a distribution. -/
def forDistribution (distribution : String) : Context :=
  (∅ : Context)
    |>.insert "ROS_OS" "nixos"
    |>.insert "ROS_DISTRO" distribution
    |>.insert "ROS_VERSION" (if distribution ∈ firstGeneration then "1" else "2")
    |>.insert "ROS_PYTHON_VERSION" (if distribution ∈ secondPython then "2" else "3")

end Context

/-- Does the comparison hold of two texts? -/
def Comparison.holds (sign : Comparison) (left right : String) : Bool :=
  match sign with
  | .eq => left = right
  | .ne => left ≠ right
  | .lt => left < right
  | .le => left ≤ right
  | .gt => right < left
  | .ge => right ≤ left

def Atom.value (ctx : Context) : Atom → String
  | .variable name => ctx.value name
  | .literal text => text

/-- Does the expression hold in a context? -/
def Expression.holds (ctx : Context) : Expression → Bool
  | .or a b => a.holds ctx || b.holds ctx
  | .and a b => a.holds ctx && b.holds ctx
  | .compare a sign b => sign.holds (a.value ctx) (b.value ctx)
  | .nonempty a => a.value ctx ≠ ""

end Condition

/-- A condition, with the text it was read from. -/
structure Condition where
  source : String
  expression : Condition.Expression
deriving DecidableEq, Repr

namespace Condition

def parse (source : String) : Except Fault Condition := do
  let tokens ← Token.scan source.toList
  return ⟨source, ← Expression.ofTokens tokens⟩

def holds (c : Condition) (ctx : Context) : Bool := c.expression.holds ctx

/-- Does an optional condition hold?  No condition always holds. -/
def holdsIfAny (c : Option Condition) (ctx : Context) : Bool := c.all (·.holds ctx)

end Condition

end RosRecipes
