import RosRecipes.Proofs.Action
import RosRecipes.Provenance.Prefetch

/-!
# The record of exchanges

With `Runner.recorded` all commands are noted with their answers, in the state of the outside programs.  So it can be
said which revisions have been fetched.

* `Exchange.fetches` tells the commands that fetch from a top directory, `Exchange.fetched?` what a fetch gave.
-/

namespace RosRecipes

variable {σ α : Type}

/-- A command and its answer. -/
structure Exchange where
  command : Command
  answer : Except Error Output

/-- The same answers, which are noted. -/
def Runner.recorded (runner : Runner σ) : Runner (σ × List Exchange) where
  run c s t :=
    let (answer, tools, files) := runner.run c s.1 t
    (answer, (tools, s.2 ++ [⟨c, answer⟩]), files)

def World.exchanges (w : World (σ × List Exchange)) : List Exchange := w.tools.2

theorem exchanges_call (runner : Runner σ) (c : Command) (w : World (σ × List Exchange)) :
    ((Action.call runner.recorded c).perform w).2.exchanges =
      w.exchanges ++ [⟨c, (runner.run c w.tools.1 w.files).1⟩] := by
  rw [Action.perform_call]
  rfl

/-! ### Fetches -/

/-- The directory that a command fetches from. -/
def Command.fetchedFrom? (c : Command) : Option Path :=
  if c.program = "nix-prefetch-git" then c.arguments.dropLast.getLast?.map Path.mk else none

theorem fetchedFrom?_prefetchCommand (location : Path) (revision : String) (directory : Option String) :
    (prefetchCommand location revision directory).fetchedFrom? = some location := by
  cases directory <;> rfl

theorem Command.fetchedFrom?_of_program {c : Command} (h : c.program ≠ "nix-prefetch-git") : c.fetchedFrom? = none :=
  if_neg h

/-- The result that is read from an answer to a fetch. -/
def fetchResult? (answer : Except Error Output) : Option Prefetched :=
  answer.toOption.bind fun output => Prefetched.parse? output.stdout

namespace Exchange

/-- Is this a fetch from the top directory with these components? -/
def fetches (x : Exchange) (toplevel : List Path.Component) : Bool :=
  x.command.fetchedFrom?.map Path.components = some toplevel

/-- The result of a fetch that succeeded. -/
def fetched? (x : Exchange) : Option Prefetched := x.command.fetchedFrom?.bind fun _ => fetchResult? x.answer

private theorem fetchedFrom?_of_git {x : Exchange} (h : x.command.program = "git") : x.command.fetchedFrom? = none := by
  refine Command.fetchedFrom?_of_program ?_
  rw [h]
  decide

theorem fetches_of_git {x : Exchange} (h : x.command.program = "git") (toplevel : List Path.Component) :
    x.fetches toplevel = false := by
  rw [fetches, fetchedFrom?_of_git h]
  rfl

theorem fetched?_of_git {x : Exchange} (h : x.command.program = "git") : x.fetched? = none := by
  rw [fetched?, fetchedFrom?_of_git h]
  rfl

end Exchange

/-- A fetch changes no more than files, and says something; it gives the result that is read from the answer. -/
theorem perform_prefetch (runner : Runner σ) (location : Path) (revision : String) (directory : Option String)
    (w : World σ) :
    let after := runner.run (prefetchCommand location revision directory) w.tools w.files
    ∃ r log, (prefetch runner location revision directory).perform w =
      (r, { w with tools := after.2.1, files := after.2.2, log }) ∧ r.toOption = fetchResult? after.1 := by
  intro after
  have hcall : ∀ log, (Action.call runner (prefetchCommand location revision directory)).perform { w with log } =
      (after.1, { w with tools := after.2.1, files := after.2.2, log }) := fun _ => Action.perform_call ..
  unfold prefetch
  rw [Action.perform_bind_ok (x := ⟨⟩) rfl]
  change ∃ r log, (Action.call runner _ >>= _).perform { w with log := w.log ++ [_] } = _ ∧ _
  rw [Action.perform_bind, hcall]
  cases after.1 with
  | error e => exact ⟨.error e, _, rfl, rfl⟩
  | ok output =>
    dsimp only [fetchResult?, Except.toOption, Option.bind_some]
    cases Prefetched.parse? output.stdout with
    | none => exact ⟨.error _, _, rfl, rfl⟩
    | some p =>
      dsimp only
      by_cases hrevision : p.revision ≠ revision
      · rw [if_pos hrevision]
        exact ⟨.ok p, _, rfl, rfl⟩
      · rw [if_neg hrevision]
        exact ⟨.ok p, _, rfl, rfl⟩

end RosRecipes
