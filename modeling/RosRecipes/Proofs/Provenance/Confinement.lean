import RosRecipes.Proofs.Action
import RosRecipes.Provenance.Resolution

/-!
# Asking git within bounds

Between its questions, what is found out about a repository changes no more than files, and no error is thrown that
ends a run.  So what git keeps is kept, and it fails only as git does, if these errors are allowed:

* `Repository.Confines.inspect` is about what is found out before a source is fetched,
* `Repository.Confines.localPatches` about the commits that become patches.
-/

namespace RosRecipes

open Action (Confined)

variable {σ : Type} {I : World σ → Prop} {E : Error → Prop}

/-- The questions about the address of a repository, and about the way to the package. -/
def Repository.Locates (arguments : List String) : Prop :=
  arguments = ["config", "remote.origin.url"] ∨ arguments = ["rev-parse", "--show-prefix"]

instance : DecidablePred Repository.Locates := fun _ => inferInstanceAs (Decidable (_ ∨ _))

private theorem not_locates {first : String} {rest : List String} (h : first ≠ "config" ∧ first ≠ "rev-parse") :
    ¬ Repository.Locates (first :: rest) := by
  rintro (hlocates | hlocates)
  · exact h.1 (List.cons.inj hlocates).1
  · exact h.2 (List.cons.inj hlocates).1

/-- All other questions about the package keep `I`, and fail with `E` only.  Files do not matter for `I`, and `E` allows
all errors that do not end a run. -/
structure Repository.Confines (r : Repository) (runner : Runner σ) (I : World σ → Prop) (E : Error → Prop) : Prop where
  call : ∀ arguments, ¬ Repository.Locates arguments → Confined I E (Action.call runner (r.question arguments))
  minor : ∀ e, e.isFatal = false → E e
  files : ∀ w files, I w → I { w with files }

namespace Repository.Confines

variable {runner : Runner σ} {r : Repository} (h : r.Confines runner I E)

include h

private theorem ask {arguments : List String} (hother : ¬ Locates arguments) : Confined I E (r.ask runner arguments) :=
  (h.call _ hother).bind fun _ => .pure _

private theorem askLine_of_ask {arguments : List String} (hask : Confined I E (r.ask runner arguments)) :
    Confined I E (r.askLine runner arguments) := by
  refine hask.bind fun answer => ?_
  cases answer.isEmpty || answer.toList.contains '\n' with
  | true => exact .throw (h.minor _ rfl)
  | false => exact .pure answer

private theorem askLine {arguments : List String} (hother : ¬ Locates arguments) :
    Confined I E (r.askLine runner arguments) :=
  h.askLine_of_ask (h.ask hother)

theorem toplevel : Confined I E (r.toplevel runner) := (h.askLine (by decide)).bind fun _ => .pure _

theorem mergeBase (commit : String) : Confined I E (r.mergeBase runner commit) := by
  have hask : ∀ tips, Confined I E (r.askLine runner ("merge-base" :: commit :: tips)) :=
    fun _ => h.askLine (not_locates (by decide))
  refine .bind ((h.ask (by decide)).bind fun _ => .pure _) fun tips => ?_
  cases tips.isEmpty with
  | true =>
    refine h.toplevel.attempt_bind fun answer _ => ?_
    cases answer with
    | ok toplevel => exact .bind (.throw (h.minor _ rfl)) fun _ => hask tips
    | error e => exact .bind (.throw (h.minor _ rfl)) fun _ => hask tips
  | false => exact hask tips

theorem lastCommit (revision : String) : Confined I E (r.lastCommit runner revision) := by
  refine (h.ask (not_locates (by decide))).bind fun commit => ?_
  cases commit.isEmpty with
  | true => exact .throw (h.minor _ rfl)
  | false => exact .pure commit

/-- What is found out about a package that has been located. -/
theorem checkout (url subdirectory : String) (perPackage : Bool) :
    Confined I E (do
      let toplevel ← r.toplevel runner
      let head ← r.head runner
      let mergeBase ← r.mergeBase runner head
      let revision ← if perPackage then r.lastCommit runner mergeBase else pure mergeBase
      return ({ url, subdirectory, toplevel, head, mergeBase, revision } : Checkout)) := by
  refine h.toplevel.bind fun toplevel => (h.askLine (by decide)).bind fun head => ?_
  refine (h.mergeBase head).bind fun mergeBase => ?_
  cases perPackage with
  | true => exact (h.lastCommit mergeBase).bind fun _ => .pure _
  | false => exact .pure _

theorem inspect (hlocate : ∀ arguments, Locates arguments → Confined I E (Action.call runner (r.question arguments)))
    (perPackage : Bool) : Confined I E (Provenance.inspect runner r perPackage) := by
  have hask : ∀ arguments, Locates arguments → Confined I E (r.ask runner arguments) :=
    fun arguments hlocates => (hlocate arguments hlocates).bind fun _ => .pure _
  refine (h.askLine_of_ask (hask _ (by decide))).bind fun url => (hask _ (by decide)).bind fun subdirectory => ?_
  exact h.checkout url subdirectory perPackage

private theorem extractPatch (target : Path) (commit : String) :
    Confined I E (extractPatch runner r target commit) := by
  have hformat : Confined I E (r.formatPatch runner commit target) := by
    refine (h.ask (not_locates (by decide))).bind fun answer => ?_
    cases r.reportedFile? answer with
    | none => exact .throw (h.minor _ rfl)
    | some file => exact .pure file
  refine hformat.bind fun file => .get fun w _ => .bind (.ofFile fun _ => h.minor _ rfl) fun content => ?_
  cases file.fileName? with
  | none => exact .throw (h.minor _ rfl)
  | some fileName => exact .bind (.changeFiles h.files fun _ => h.minor _ rfl) fun _ => .pure _

private theorem extractPatches (revision : String) : Confined I E (extractPatches runner r revision) := by
  refine .bind ((h.ask (not_locates (by decide))).bind fun _ => .pure _) fun commits => ?_
  cases commits.isEmpty with
  | true => exact .pure []
  | false =>
    refine .get fun w _ => .bind (.modify fun w hw => h.files w _ hw) fun _ => ?_
    refine Confined.attempt_bind (.mapM (h.extractPatch _) commits) fun outcome houtcome => ?_
    exact .bind (.modify fun w hw => h.files w _ hw) fun _ => .ofExcept houtcome

theorem localPatches (revision : String) (wanted : Bool) :
    Confined I E (Provenance.localPatches runner r revision wanted) := by
  cases wanted with
  | true => exact h.extractPatches revision
  | false => exact .pure []

end Repository.Confines

theorem Provenance.confined_warnOfDropped (hI : ∀ w log, I w → I { w with log }) (c : Checkout) (dropsCommits : Bool) :
    Confined I E (warnOfDropped c dropsCommits : Action σ Unit) := by
  cases dropsCommits with
  | true => exact .remark hI _ _
  | false => exact .pure ()

end RosRecipes
