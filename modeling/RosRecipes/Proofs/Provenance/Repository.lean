import RosRecipes.Proofs.Settled
import RosRecipes.Provenance.Resolution

/-!
# Settled questions to a repository

If git answers by the question alone, then everything that is found out about a repository is settled.  The commands
that write patches are left out here.

* `Provenance.settled_inspect` is about what is found out before a source is fetched,
* `Repository.settled_localCommits` about the commits that become patches.
-/

namespace RosRecipes

open Action (Settled)

variable {σ : Type} {runner : Runner σ} {T : FileTree → FileTree → Prop} {r : Repository}

/-- The command writes patches. -/
def Command.WritesPatch (c : Command) : Prop := c.program = "git" ∧ c.arguments.head? = some "format-patch"

/-- Git answers by the question alone, and changes files only as `T` allows, as long as no patch is written. -/
def Repository.AnswersSettled (runner : Runner σ) (T : FileTree → FileTree → Prop) (r : Repository) : Prop :=
  ∀ arguments, ¬ (r.question arguments).WritesPatch → Settled T (Action.call runner (r.question arguments))

namespace Repository

section

variable (hT : Equivalence T) (h : r.AnswersSettled runner T)

include hT h

theorem settled_ask {arguments : List String} (hplain : arguments.head? ≠ some "format-patch") :
    Settled T (r.ask runner arguments) :=
  (h arguments fun hpatch => hplain hpatch.2).bind hT fun _ => .pure hT _

theorem settled_askLine {arguments : List String} (hplain : arguments.head? ≠ some "format-patch") :
    Settled T (r.askLine runner arguments) := by
  refine (settled_ask hT h hplain).bind hT fun answer => ?_
  by_cases hline : (answer.isEmpty || answer.toList.contains '\n') = true
  · simp only [hline, ↓reduceIte]
    exact .throw hT _
  · simp only [hline]
    exact .pure hT answer

theorem settled_remoteUrl : Settled T (r.remoteUrl runner) := settled_askLine hT h (by decide)

theorem settled_subdirectory : Settled T (r.subdirectory runner) := settled_ask hT h (by decide)

theorem settled_head : Settled T (r.head runner) := settled_askLine hT h (by decide)

theorem settled_remoteTips : Settled T (r.remoteTips runner) :=
  (settled_ask hT h (by decide)).bind hT fun _ => .pure hT _

theorem settled_toplevel : Settled T (r.toplevel runner) :=
  (settled_askLine hT h (by decide)).bind hT fun _ => .pure hT _

theorem settled_mergeBase (commit : String) : Settled T (r.mergeBase runner commit) := by
  refine (settled_remoteTips hT h).bind hT fun tips => ?_
  by_cases htips : tips.isEmpty = true
  · simp only [htips, ↓reduceIte]
    refine (settled_toplevel hT h).attempt.bind hT fun toplevel => ?_
    cases toplevel with
    | error e => exact .throw hT _
    | ok toplevel => exact .throw hT _
  · simp only [htips]
    exact settled_askLine hT h (by simp)

theorem settled_lastCommit (revision : String) : Settled T (r.lastCommit runner revision) := by
  refine (settled_ask hT h (by simp)).bind hT fun commit => ?_
  by_cases hcommit : commit.isEmpty = true
  · simp only [hcommit, ↓reduceIte]
    exact .throw hT _
  · simp only [hcommit]
    exact .pure hT commit

theorem settled_localCommits (revision : String) : Settled T (r.localCommits runner revision) :=
  (settled_ask hT h (by simp)).bind hT fun _ => .pure hT _

end

end Repository

/-- What is found out about a package is settled. -/
theorem Provenance.settled_inspect (hT : Equivalence T) (h : r.AnswersSettled runner T) (perPackage : Bool) :
    Settled T (Provenance.inspect runner r perPackage) := by
  refine (Repository.settled_remoteUrl hT h).bind hT fun url => ?_
  refine (Repository.settled_subdirectory hT h).bind hT fun subdirectory => ?_
  refine (Repository.settled_toplevel hT h).bind hT fun toplevel => ?_
  refine (Repository.settled_head hT h).bind hT fun head => ?_
  refine (Repository.settled_mergeBase hT h head).bind hT fun mergeBase => ?_
  cases perPackage with
  | true => exact (Repository.settled_lastCommit hT h mergeBase).bind hT fun revision => .pure hT _
  | false => exact .bind hT (.pure hT mergeBase) fun revision => .pure hT _

end RosRecipes
