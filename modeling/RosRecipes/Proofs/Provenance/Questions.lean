import RosRecipes.Proofs.Action
import RosRecipes.Proofs.Text.Lines
import RosRecipes.Provenance.Repository

/-!
# What printed lines tell

Git prints each answer in a line of its own.  If a command prints the same in every world (`Runner.Prints`), then the
question gives the printed lines in every world.
-/

namespace RosRecipes

open Action (Gives)
open Text (IsLine unlines)

variable {σ : Type} {runner : Runner σ} {r : Repository}

/-- The command always succeeds and prints the text. -/
def Runner.Prints (runner : Runner σ) (c : Command) (text : String) : Prop :=
  ∀ s t, ∃ output, (runner.run c s t).1 = .ok output ∧ output.stdout = text

private theorem lines_trimmed_unlines {ls : List String} (h : ∀ l ∈ ls, IsLine l.toList) :
    Text.lines (Text.trimmed (unlines ls)).toList = ls.map String.toList := by
  rw [Text.trimmed, String.toList_ofList, Text.lines_trim_unlines h]

theorem Text.IsLine.isEmpty_eq_false {line : String} (h : IsLine line.toList) : line.isEmpty = false := by
  rw [String.isEmpty_eq_false_iff]
  rintro rfl
  exact h.ne_nil rfl

theorem Text.IsLine.trimmed_unlines {line : String} (h : IsLine line.toList) :
    Text.trimmed (unlines [line]) = line := by
  have hunlines : (unlines [line]).toList = line.toList ++ ['\n'] := by
    simp [unlines]
  rw [Text.trimmed, hunlines, Text.trim_append_blanks h.start h.stop Text.isBlank_lineFeed, String.ofList_toList]

namespace Repository

/-- The lines of an answer that are not blank are those that were printed. -/
theorem answerLines_trimmed_unlines {ls : List String} (h : ∀ l ∈ ls, IsLine l.toList) :
    answerLines (Text.trimmed (unlines ls)) = ls := by
  unfold answerLines
  rw [lines_trimmed_unlines h, List.map_map, List.filter_eq_self.2, List.map_map]
  · refine (List.map_congr_left fun l hl => ?_).trans (List.map_id ls)
    show String.ofList (Text.trim l.toList) = l
    rw [(h l hl).trim, String.ofList_toList]
  · intro piece hpiece
    obtain ⟨l, hl, rfl⟩ := List.mem_map.1 hpiece
    show decide (Text.trim l.toList ≠ []) = true
    rw [(h l hl).trim]
    exact decide_eq_true (h l hl).ne_nil

theorem mem_dropRepeated {xs : List String} {x : String} : x ∈ dropRepeated xs ↔ x ∈ xs := by
  have hfold : ∀ seen : List String,
      x ∈ xs.foldl (fun seen x => if x ∈ seen then seen else seen ++ [x]) seen ↔ x ∈ seen ∨ x ∈ xs := by
    induction xs with
    | nil => simp
    | cons y xs ih =>
      intro seen
      rw [List.foldl_cons, ih, List.mem_cons]
      by_cases hy : y ∈ seen
      · rw [if_pos hy]
        constructor
        · exact Or.imp_right .inr
        · rintro (hx | rfl | hx)
          · exact .inl hx
          · exact .inl hy
          · exact .inr hx
      · rw [if_neg hy, List.mem_append, List.mem_singleton, or_assoc]
  simpa [dropRepeated] using hfold []

/-! ### Questions -/

/-- The answer without the blanks at its ends, in the world that the command leaves. -/
theorem perform_ask {arguments : List String} {text : String} (h : runner.Prints (r.question arguments) text)
    (w : World σ) :
    (r.ask runner arguments).perform w =
      (.ok (Text.trimmed text), ((Action.call runner (r.question arguments)).perform w).2) := by
  obtain ⟨output, houtput, rfl⟩ := h w.tools w.files
  have hcall : ((Action.call runner (r.question arguments)).perform w).1 = .ok output := by
    rw [Action.perform_call]
    exact houtput
  unfold ask
  rw [Action.perform_bind_ok hcall]
  rfl

theorem gives_ask {arguments : List String} {text : String} (h : runner.Prints (r.question arguments) text) :
    Gives (fun _ => True) (r.ask runner arguments) (.ok (Text.trimmed text)) := by
  intro w _
  rw [perform_ask h]
  exact ⟨rfl, trivial⟩

/-- A question whose answer is one line. -/
theorem gives_askLine {arguments : List String} {line : String} (hline : IsLine line.toList)
    (h : runner.Prints (r.question arguments) (unlines [line])) :
    Gives (fun _ => True) (r.askLine runner arguments) (.ok line) := by
  refine (gives_ask h).bind_ok ?_
  have hsingle : line.toList.contains '\n' = false := by
    simpa using hline.single
  rw [hline.trimmed_unlines, hline.isEmpty_eq_false, hsingle]
  exact .pure line

/-- The newest ancestor that one of some tips contains, whatever the order in which they are listed. -/
theorem gives_mergeBase {tips : List String} {commit base : String} (hne : tips ≠ [])
    (htips : ∀ tip ∈ tips, IsLine tip.toList) (hbase : IsLine base.toList)
    (hlist : runner.Prints (r.question ["for-each-ref", "refs/remotes/origin", "--format=%(objectname)"])
      (unlines tips))
    (hask : ∀ ts, (∀ t, t ∈ ts ↔ t ∈ tips) →
      runner.Prints (r.question (["merge-base", commit] ++ ts)) (unlines [base])) :
    Gives (fun _ => True) (r.mergeBase runner commit) (.ok base) := by
  have hremote : Gives (fun _ => True) (r.remoteTips runner) (.ok (dropRepeated tips)) := by
    refine (gives_ask hlist).bind_ok ?_
    rw [answerLines_trimmed_unlines htips]
    exact .pure _
  refine hremote.bind_ok ?_
  have hfilled : (dropRepeated tips).isEmpty = false := by
    obtain ⟨tip, htip⟩ := List.exists_mem_of_ne_nil tips hne
    rw [List.isEmpty_eq_false_iff]
    exact List.ne_nil_of_mem (mem_dropRepeated.2 htip)
  rw [hfilled]
  exact gives_askLine hbase (hask _ fun _ => mem_dropRepeated)

theorem gives_lastCommit {revision commit : String} (hcommit : IsLine commit.toList)
    (h : runner.Prints (r.question ["rev-list", "-1", revision, "--", "."]) (unlines [commit])) :
    Gives (fun _ => True) (r.lastCommit runner revision) (.ok commit) := by
  refine (gives_ask h).bind_ok ?_
  rw [hcommit.trimmed_unlines, hcommit.isEmpty_eq_false]
  exact .pure commit

theorem gives_localCommits {revision : String} {commits : List String} (hcommits : ∀ c ∈ commits, IsLine c.toList)
    (h : runner.Prints (r.question ["rev-list", "--reverse", revision ++ "..HEAD", "--", "."]) (unlines commits)) :
    Gives (fun _ => True) (r.localCommits runner revision) (.ok commits) := by
  refine (gives_ask h).bind_ok ?_
  rw [answerLines_trimmed_unlines hcommits]
  exact .pure commits

end Repository

end RosRecipes
