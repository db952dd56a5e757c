import RosRecipes.Path

/-!
# Commands

What is asked of an outside program, and what a successful program answers.
-/

namespace RosRecipes

structure Command where
  program : String
  arguments : List String
  /-- The directory to run in; the working directory if there is none. -/
  directory : Option Path := none
  /-- The text on standard input. -/
  input : Option String := none
deriving DecidableEq, Repr

namespace Command

/-- The program and its arguments as they are shown, without quotes. -/
def line (c : Command) : String := String.intercalate " " (c.program :: c.arguments)

/-- The directory as it is shown. -/
def shownDirectory (c : Command) : Path := c.directory.getD ⟨"."⟩

end Command

/-- What a program wrote before it ended well. -/
structure Output where
  stdout : String := ""
  stderr : String := ""
deriving DecidableEq, Repr

end RosRecipes
