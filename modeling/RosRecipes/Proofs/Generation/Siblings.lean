import RosRecipes.Proofs.Generation.Inputs
import RosRecipes.Proofs.Generation.TopLevel
import RosRecipes.Proofs.Generation.Turns

/-!
# Packages of one set

A package that depends on another one of the same run finds it: where the database does not know the name, the recipe
lists the attribute under which the overlay has the other package, and the shell does not list it
(`packages_find_each_other`).  All of this is about the texts that the run emits (`Job.Delivers`, `Job.DeliversTop`).
-/

namespace RosRecipes.Job

variable {σ : Type} {job : Job σ} {start : World σ} {r : Report} {d P Q : Draft}

open Rosdep.Database (confines_replies confined_replies)

/-- What the database says, it says to the end of the run. -/
theorem kept_replies (job : Job σ) (name : String) (answer : Rosdep.Lookup) :
    job.Kept (job.database.Replies · name answer) where
  prepare := confined_prepare confines_replies confined_replies
  emit := fun p content w hw =>
    ⟨hw.of_answers (sameMemory_emit p content w).answers, fun _ _ => trivial⟩
  claim := fun _ _ hw => hw.of_answers rfl
  remark := fun _ _ hw => hw.of_answers rfl

/-- The recipe of the draft was emitted: its lines below the comment and the notice, as they are or formatted. -/
structure Delivers (job : Job σ) (w : World σ) (d : Draft) : Prop where
  emitted : ⟨d.outputFile, d.text.toUTF8, false⟩ ∈ w.emitted
  text : job.Finishes (job.plainText d.recipe) d.text

theorem delivers (hrun : (job.run.perform start).1 = .ok r) (hd : d ∈ job.drafts start) :
    job.Delivers (job.run.perform start).2 d := by
  obtain ⟨added, hadded, hsublist⟩ := recipes_sublist hrun
  obtain ⟨path, u, v, v', hprepare, -, -⟩ := exists_turn hrun hd
  refine ⟨?_, (recipe_of_prepare hprepare).2.2⟩
  rw [hadded]
  exact List.mem_append_right _ (hsublist.subset (List.mem_map_of_mem hd))

/-- The files beside the recipes that are asked for were emitted for the packages of the report. -/
theorem top_emitted (hrun : (job.run.perform start).1 = .ok r) {file : Path × ByteArray}
    (hfile : file ∈ job.topContents r.packages) :
    ⟨file.1, file.2, false⟩ ∈ (job.run.perform start).2.emitted := by
  obtain ⟨r', w, w', log, -, htop, hworld, hpackages, -⟩ := stages_of_run hrun
  obtain ⟨added, hadded, -, hall, -⟩ := emits_topLevel job r'.packages w
  rw [htop] at hadded hall
  rw [hpackages] at hfile
  rw [hworld]
  show _ ∈ w'.emitted
  rw [hadded, hall rfl]
  exact List.mem_append_right _ (List.mem_map.2 ⟨file, hfile, rfl⟩)

/-- The overlay was emitted with a line for each of the attributes, and the shell with a list of the names.  Names that
are told from their lines are on a line each. -/
structure DeliversTop (job : Job σ) (w : World σ) (attributes : List (String × String)) (listed : List String) :
    Prop where
  overlay : ⟨job.configuration.topDirectory / "overlay.nix",
    ("final: prev:\n\x7b\n" ++ String.join (attributes.map PackageSet.attributeLine) ++ "\x7d\n").toUTF8,
    false⟩ ∈ w.emitted
  shell : ∃ list, list = PackageSet.indent "            " (String.intercalate "\n" listed) ++ "\n" ∧
    ((∀ n ∈ listed, PackageSet.FillsLine n.toList) → list = PackageSet.listedLines listed) ∧
    ⟨job.configuration.topDirectory / "shell.nix",
      (PackageSet.aboveListed job.reference job.configuration.distribution job.configuration.commandLine ++ list ++
        PackageSet.belowListed).toUTF8, false⟩ ∈ w.emitted

/-- The files of a report account for its packages. -/
theorem deliversTop (hoverlay : job.configuration.overlay = true) (hshell : job.configuration.shell = true)
    (hrun : (job.run.perform start).1 = .ok r) :
    ∃ attributes listed, PackageSet.Accounts job.entryOf r.packages attributes listed ∧
      job.DeliversTop (job.run.perform start).2 attributes listed := by
  have hoverlayText := top_emitted hrun (overlay_mem_topContents hoverlay)
  have hshellText := top_emitted hrun (shell_mem_topContents hshell)
  rw [overlayText_eq] at hoverlayText
  rw [shellText, PackageSet.shell_eq_indent] at hshellText
  exact ⟨_, _, PackageSet.accounts job.entryOf r.packages, hoverlayText, _, rfl, PackageSet.listedLines_eq, hshellText⟩

/-- An application and the library that it needs to run, in this order. -/
def navigation : Job Unit where
  configuration := { sources := [⟨"app/package.xml"⟩, ⟨"lib/package.xml"⟩], naming := .attributeOf }
  database := .nothing
  runner := .empty
  year := "2026"

def navigationStart : World Unit where
  tools := ()
  files := {
    entries := ⟨[
      (["app"], .directory),
      (["app", "package.xml"], .file ("<package><name>nav_app</name><version>1</version>" ++
        "<run_depend>nav_core</run_depend></package>").toUTF8 false),
      (["lib"], .directory),
      (["lib", "package.xml"], .file "<package><name>nav_core</name><version>1</version></package>".toUTF8 false)]⟩
    home := [] }

end RosRecipes.Job
