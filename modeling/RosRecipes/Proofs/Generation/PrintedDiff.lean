import RosRecipes.Proofs.Diff.Rejoining
import RosRecipes.Proofs.Generation.Emission

/-!
# The printed diff

In compare mode a diff is printed for each file that differs.  Below its names it is meant to make what would be
generated of what is on disk, whatever the two texts are.  It does unless a line that it shows ends in a carriage
return, which is lost (`printed_diff_applies_iff`, `printed_diff_without_return`).
-/

namespace RosRecipes

theorem Text.decodeLossy_toUTF8 (s : String) : Text.decodeLossy s.toUTF8 = s := by
  have hdecode : String.fromUTF8? s.toUTF8 = some s := dif_pos s.isValidUTF8
  rw [Text.decodeLossy, hdecode]

namespace Action

open Diff

variable {σ : Type} {w : World σ} {path : Path} {old new : String}

/-- The patch between two different texts makes the one of the other.  The printed diff, which is that patch under other
names, does so if none of the lines that it shows ends in a carriage return. -/
theorem printed_diff_applies_iff (hmode : w.mode = .compare) (hread : w.files.read path = .ok old.toUTF8)
    (hne : old ≠ new) :
    ∃ exact printed, patch old new = "--- original\n+++ modified\n" ++ exact ∧ patched? exact old = some new ∧
      ((emit path new.toUTF8).perform w).2.printed =
        w.printed ++ ["--- " ++ path.text ++ "\n+++ up-to-date\n" ++ printed] ∧
      (patched? printed old = some new ↔ ∀ h ∈ hunksBetween old new, ∀ line ∈ h.lines, ¬ EndsInReturn line.2) := by
  have hbytes : old.toUTF8 ≠ new.toUTF8 := by
    intro hbytes
    have hdecode := congrArg Text.decodeLossy hbytes
    rw [Text.decodeLossy_toUTF8, Text.decodeLossy_toUTF8] at hdecode
    exact hne hdecode
  have hprinted := printed_emit hmode hread hbytes
  have hnames : "\n+++ " ++ ("up-to-date" ++ "\n") = "\n+++ up-to-date\n" := by decide
  have hname : "--- " ++ path.text ++ "\n+++ " ++ "up-to-date" ++ "\n" =
      "--- " ++ path.text ++ "\n+++ up-to-date\n" := by
    rw [String.append_assoc, String.append_assoc, hnames]
  rw [Text.decodeLossy_toUTF8, Text.decodeLossy_toUTF8, unified_eq _ _ hne, hname] at hprinted
  exact ⟨_, _, patch_eq old new, patched?_patch old new, hprinted, patched?_rejoined_iff⟩

/-- A world in which files are compared, and one file is there. -/
def comparingWith (text : String) : World Unit where
  tools := ()
  files := { entries := ⟨[(["package.nix"], .file text.toUTF8 false)]⟩, home := [] }
  mode := .compare

/-- Lines that look like names or headers are shown as any others, and so is a last line without an ending. -/
theorem printed_diff_applies_to_headers :
    ∃ printed, ((emit ⟨"package.nix"⟩ "@@ -1 +1 @@\n+++ b".toUTF8).perform (comparingWith "--- a\n+++ b\n")).2.printed =
        ["--- package.nix\n+++ up-to-date\n" ++ printed] ∧
      patched? printed "--- a\n+++ b\n" = some "@@ -1 +1 @@\n+++ b" := by
  have hmode : (comparingWith "--- a\n+++ b\n").mode = .compare := rfl
  have hread : (comparingWith "--- a\n+++ b\n").files.read ⟨"package.nix"⟩ = .ok "--- a\n+++ b\n".toUTF8 := by
    decide +kernel
  have hne : "--- a\n+++ b\n" ≠ "@@ -1 +1 @@\n+++ b" := by decide
  obtain ⟨-, printed, -, -, hprinted, happlies⟩ := printed_diff_applies_iff hmode hread hne
  refine ⟨printed, hprinted, happlies.2 ?_⟩
  decide +kernel

/-- A line on disk that ends in a carriage return and a line feed is shown without the one, so the printed diff does
not apply. -/
theorem printed_diff_without_return :
    ¬ ∀ (w : World Unit) (path : Path) (old new : String), w.mode = .compare → w.files.read path = .ok old.toUTF8 →
      old ≠ new → ∃ printed, ((emit path new.toUTF8).perform w).2.printed =
        w.printed ++ ["--- " ++ path.text ++ "\n+++ up-to-date\n" ++ printed] ∧ patched? printed old = some new := by
  intro hclaim
  have hread : (comparingWith "a\r\nb\n").files.read ⟨"package.nix"⟩ = .ok "a\r\nb\n".toUTF8 := by decide +kernel
  obtain ⟨printed, hprinted, hpatched⟩ :=
    hclaim (comparingWith "a\r\nb\n") ⟨"package.nix"⟩ "a\r\nb\n" "a\r\nc\n" rfl hread (by decide)
  have hshown : ((emit ⟨"package.nix"⟩ "a\r\nc\n".toUTF8).perform (comparingWith "a\r\nb\n")).2.printed =
      ["--- package.nix\n+++ up-to-date\n" ++ "@@ -1,2 +1,2 @@\n a\n-b\n+c\n"] := by
    decide +kernel
  have hnames : "--- " ++ "package.nix" ++ "\n+++ up-to-date\n" = "--- package.nix\n+++ up-to-date\n" := by decide
  have hsame : "--- package.nix\n+++ up-to-date\n" ++ "@@ -1,2 +1,2 @@\n a\n-b\n+c\n" =
      "--- " ++ "package.nix" ++ "\n+++ up-to-date\n" ++ printed :=
    List.singleton_inj.1 (hshown.symm.trans hprinted)
  rw [hnames] at hsame
  rw [← (String.append_right_inj _).1 hsame] at hpatched
  revert hpatched
  decide +kernel

end Action

end RosRecipes
