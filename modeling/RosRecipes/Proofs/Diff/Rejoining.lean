import Mathlib.Data.List.Basic
import RosRecipes.Proofs.Diff.Reading
import RosRecipes.Proofs.Text.Lines

/-!
# Patches under other names

To put other names over a patch it is cut into lines, and those below the names are joined again (`unified`).  No line
of a hunk is taken for a name, and a missing line feed is still noted.  But a carriage return at the end of a line goes
with the line feed, so of the lines that are shown, those that end in one do not come back.

* `patched?_patch`: a patch makes the one text of the other, whatever is in them.
* `unified_eq`: what stands below the names.
* `patched?_rejoined_iff`: what stands there makes the one text of the other if no carriage return is lost.
-/

namespace RosRecipes.Diff

/-! ### Lines -/

/-- A line feed is only at the end of a line. -/
theorem single_of_mem_linesOf {text : List Char} {line : Line} (h : line ∈ linesOf text) : '\n' ∉ line.dropLast := by
  induction text generalizing line with
  | nil => cases h
  | cons c rest ih =>
    rw [linesOf] at h
    split at h
    · rcases List.mem_cons.1 h with rfl | h
      · exact List.not_mem_nil
      · exact ih h
    · next hc =>
      split at h
      · cases List.mem_singleton.1 h
        exact List.not_mem_nil
      · next first more hlines =>
        rw [hlines] at ih
        rcases List.mem_cons.1 h with rfl | h
        · cases first with
          | nil => exact List.not_mem_nil
          | cons d first =>
            rw [List.dropLast_cons_cons, List.mem_cons, not_or]
            exact ⟨Ne.symm hc, ih List.mem_cons_self⟩
        · exact ih (List.mem_cons_of_mem _ h)

theorem linesOf_append {line : List Char} (h : '\n' ∉ line) (rest : List Char) :
    linesOf (line ++ '\n' :: rest) = (line ++ ['\n']) :: linesOf rest := by
  induction line with
  | nil => rw [List.nil_append, linesOf, if_pos rfl]; rfl
  | cons c line ih =>
    rw [List.mem_cons, not_or] at h
    rw [List.cons_append, linesOf, if_neg (Ne.symm h.1), ih h.2]
    rfl

/-- The lines of a patch are those that were printed. -/
theorem textLines_unlines {ls : List String} (h : ∀ l ∈ ls, '\n' ∉ l.toList) :
    textLines (Text.unlines ls).toList = ls.map String.toList := by
  induction ls with
  | nil => rfl
  | cons l ls ih =>
    obtain ⟨hl, hls⟩ := List.forall_mem_cons.1 h
    have hcons : (Text.unlines (l :: ls)).toList = l.toList ++ '\n' :: (Text.unlines ls).toList := by
      simp [Text.unlines, String.toList_append, String.toList_join]
    rw [textLines, hcons, linesOf_append hl, List.map_cons, ← textLines, ih hls, Text.takeWhile_ne_append hl,
      List.map_cons]

/-! ### What is shown -/

variable {hs : List Hunk}

private theorem not_mem_of_unended {line : Line} (h : '\n' ∉ line.dropLast) (hended : line.getLast? ≠ some '\n') :
    '\n' ∉ line := by
  rcases List.eq_nil_or_concat' line with rfl | ⟨start, c, rfl⟩
  · exact List.not_mem_nil
  · rw [List.dropLast_concat] at h
    rw [List.getLast?_concat] at hended
    simp only [List.mem_append, List.mem_singleton, not_or]
    exact ⟨h, fun hc => hended (congrArg some hc.symm)⟩

/-- Lines that are shown end where a line feed does. -/
theorem single_of_mem_render (h : ∀ h ∈ hs, ∀ x ∈ h.lines, '\n' ∉ x.2.dropLast) :
    ∀ text ∈ hs.flatMap Hunk.render, '\n' ∉ text.toList := by
  intro text htext
  obtain ⟨h₁, hh, htext⟩ := List.mem_flatMap.1 htext
  rcases List.mem_cons.1 htext with rfl | htext
  · exact not_mem_header rfl (by decide) h₁
  · obtain ⟨⟨kind, line⟩, hx, htext⟩ := List.mem_flatMap.1 htext
    have hline : '\n' ∉ line.dropLast := h h₁ hh _ hx
    have hmark : '\n' ≠ mark kind := by cases kind <;> decide
    unfold showLine at htext
    split at htext
    · rw [List.mem_singleton.1 htext]
      decide
    · next heq =>
      cases heq
      by_cases hended : line.getLast? = some '\n'
      · simp only [hended, if_true, List.mem_singleton] at htext
        simp [htext, hmark, hline]
      · simp only [hended, if_false, List.mem_cons, List.not_mem_nil, or_false] at htext
        rcases htext with rfl | rfl
        · simp [hmark, not_mem_of_unended hline hended]
        · decide

/-! ### Carriage returns -/

theorem dropReturn_header (h : Hunk) : Text.dropReturn h.header.toList = h.header.toList :=
  Text.dropReturn_of_ne fun hlast => not_mem_header rfl (by decide) h (List.mem_of_getLast? hlast)

theorem dropReturn_concat (start : List Char) (c : Char) :
    Text.dropReturn (start ++ [c]) = if c = '\r' then start else start ++ [c] := by
  unfold Text.dropReturn
  rw [List.getLast?_concat]
  split
  · next h =>
    rw [if_pos (Option.some.inj h), List.dropLast_concat]
  · next h => rw [if_neg fun hc => h (congrArg some hc)]

theorem dropReturn_subset (line : List Char) : Text.dropReturn line ⊆ line := by
  unfold Text.dropReturn
  split
  · exact List.dropLast_subset line
  · exact List.Subset.refl line

theorem dropReturn_mark (kind : Kind) (line : List Char) :
    Text.dropReturn (mark kind :: line) = mark kind :: Text.dropReturn line := by
  rcases List.eq_nil_or_concat' line with rfl | ⟨start, c, rfl⟩
  · cases kind <;> rfl
  · rw [← List.cons_append, dropReturn_concat, dropReturn_concat]
    split <;> rfl

/-- Does a line end in a carriage return, before its line feed if it has one? -/
def EndsInReturn (line : Line) : Prop := ['\r'] <:+ line ∨ ['\r', '\n'] <:+ line

instance : DecidablePred EndsInReturn := fun _ => inferInstanceAs (Decidable (_ ∨ _))

private theorem length_dropReturn (line : List Char) :
    (Text.dropReturn line).length + (if line.getLast? = some '\r' then 1 else 0) = line.length := by
  rcases List.eq_nil_or_concat' line with rfl | ⟨start, c, rfl⟩
  · rfl
  · rw [dropReturn_concat, List.getLast?_concat]
    by_cases hc : c = '\r' <;> simp [hc]

private theorem endsInReturn_iff {line : Line} :
    EndsInReturn line ↔
      if line.getLast? = some '\n' then line.dropLast.getLast? = some '\r' else line.getLast? = some '\r' := by
  rw [EndsInReturn, List.singleton_suffix_iff_getLast?_eq_some]
  rcases List.eq_nil_or_concat' line with rfl | ⟨start, c, rfl⟩
  · simp
  · have hpair : ∀ t, ['\r', '\n'] = t ++ [c] ↔ t = ['\r'] ∧ c = '\n' := by
      intro t
      constructor
      · intro h
        obtain ⟨rfl, hc⟩ := List.append_inj' (show ['\r'] ++ ['\n'] = t ++ [c] from h) rfl
        exact ⟨rfl, (List.singleton_inj.1 hc).symm⟩
      · rintro ⟨rfl, rfl⟩
        rfl
    rw [List.suffix_concat_iff, List.getLast?_concat, List.dropLast_concat]
    by_cases hc : c = '\n'
    · subst hc
      simp [hpair, List.singleton_suffix_iff_getLast?_eq_some]
    · simp [hpair, hc]

/-- What is lost of a line is the carriage return at its end. -/
theorem length_reshown (line : Line) :
    (reshown Text.dropReturn line).length + (if EndsInReturn line then 1 else 0) = line.length := by
  simp only [endsInReturn_iff]
  unfold reshown
  split
  · next hended =>
    have hlength := length_dropReturn line.dropLast
    obtain ⟨start, rfl⟩ := List.getLast?_eq_some_iff.1 hended
    simp only [List.length_append, List.dropLast_concat] at hlength ⊢
    omega
  · exact length_dropReturn line

theorem reshown_eq_iff {line : Line} : reshown Text.dropReturn line = line ↔ ¬ EndsInReturn line := by
  have hlength := length_reshown line
  constructor
  · intro h hends
    rw [h, if_pos hends] at hlength
    omega
  · intro h
    rw [endsInReturn_iff] at h
    unfold reshown
    split at h
    · next hended =>
      obtain ⟨start, rfl⟩ := List.getLast?_eq_some_iff.1 hended
      rw [List.dropLast_concat] at h
      rw [if_pos hended, List.dropLast_concat, Text.dropReturn_of_ne h]
    · next hended => rw [if_neg hended, Text.dropReturn_of_ne h]

/-! ### Patches -/

variable {old new : String}

/-- The hunks between two texts. -/
def hunksBetween (old new : String) : List Hunk := hunks (linesOf old.toList) (linesOf new.toList)

private theorem single_hunks (old new : String) : ∀ h ∈ hunksBetween old new, ∀ x ∈ h.lines, '\n' ∉ x.2.dropLast := by
  intro h hh x hx
  rcases mem_of_follow (follow_hunks _ _) hh hx with hmem | hmem
  · exact single_of_mem_linesOf hmem
  · exact single_of_mem_linesOf hmem

/-- The lines of a patch below the names. -/
def hunkLines (old new : String) : List String := (hunksBetween old new).flatMap Hunk.render

private theorem single_hunkLines (old new : String) : ∀ text ∈ hunkLines old new, '\n' ∉ text.toList :=
  single_of_mem_render (single_hunks old new)

theorem patch_eq (old new : String) :
    patch old new = "--- original\n+++ modified\n" ++ Text.unlines (hunkLines old new) :=
  Text.unlines_append ["--- original", "+++ modified"] (hunkLines old new)

/-- A patch makes the one text of the other. -/
theorem patched?_patch (old new : String) : patched? (Text.unlines (hunkLines old new)) old = some new := by
  have hid := @readHunks?_render id id (fun _ => rfl) ⟨rfl, rfl⟩ rfl fun _ _ => rfl
  have hread := hid (hunksBetween old new)
  rw [map_map_eq_self fun _ _ _ _ => reshown_id _] at hread
  rw [patched?, textLines_unlines (single_hunkLines old new)]
  simp only [id] at hread
  rw [hunkLines, hread]
  dsimp only
  rw [hunksBetween, follow_hunks, Option.map_some, flatten_linesOf, String.ofList_toList]

/-- The lines below the names after a patch is cut into lines. -/
def rejoined (old new : String) : List String :=
  (hunkLines old new).map fun text => .ofList (Text.dropReturn text.toList)

private theorem toList_rejoined (old new : String) :
    (rejoined old new).map String.toList = (hunkLines old new).map fun text => Text.dropReturn text.toList := by
  simp [rejoined]

private theorem single_rejoined (old new : String) : ∀ text ∈ rejoined old new, '\n' ∉ text.toList := by
  intro text htext
  obtain ⟨shown, hshown, rfl⟩ := List.mem_map.1 htext
  rw [String.toList_ofList]
  exact fun hfeed => single_hunkLines old new shown hshown (dropReturn_subset _ hfeed)

/-- No line of a hunk is taken for a name. -/
private theorem dropWhile_isName (old new : String) :
    (Text.lines (patch old new).toList).dropWhile isName = (rejoined old new).map String.toList := by
  have hnames : ∀ text ∈ "--- original" :: "+++ modified" :: hunkLines old new, '\n' ∉ text.toList :=
    List.forall_mem_cons.2 ⟨by decide, List.forall_mem_cons.2 ⟨by decide, single_hunkLines old new⟩⟩
  rw [toList_rejoined, patch, ← hunksBetween, ← hunkLines, Text.lines_unlines hnames, List.map_cons, List.map_cons,
    List.dropWhile_cons_of_pos (by decide), List.dropWhile_cons_of_pos (by decide)]
  unfold hunkLines
  cases hunksBetween old new with
  | nil => rfl
  | cons h hs =>
    obtain ⟨text, htext⟩ := exists_header h
    have hname : isName (Text.dropReturn h.header.toList) = false := by
      rw [dropReturn_header, htext]
      rfl
    rw [List.flatMap_cons, Hunk.render, List.cons_append, List.map_cons,
      List.dropWhile_cons_of_neg (Bool.eq_false_iff.1 hname)]

theorem unified_eq (oldName newName : String) (h : old ≠ new) :
    unified oldName newName old new ++ "\n" =
      "--- " ++ oldName ++ "\n+++ " ++ newName ++ "\n" ++ Text.unlines (rejoined old new) := by
  have hlines : linesOf old.toList ≠ linesOf new.toList := by
    intro hlines
    have hflatten := congrArg List.flatten hlines
    rw [flatten_linesOf, flatten_linesOf] at hflatten
    exact h (String.toList_inj.1 hflatten)
  have hne : rejoined old new ≠ [] := by
    obtain ⟨h₁, hs, hhunks⟩ := List.exists_cons_of_ne_nil (hunks_ne_nil hlines)
    simp [rejoined, hunkLines, hunksBetween, hhunks, Hunk.render]
  have hbody : String.ofList (Text.join ['\n'] ((rejoined old new).map String.toList)) ++ "\n" =
      Text.unlines (rejoined old new) := by
    rw [← String.toList_inj, String.toList_append, String.toList_ofList, Text.toList_unlines hne]
    rfl
  rw [unified, dropWhile_isName, String.append_assoc, hbody]

/-- What stands below the names makes the one text of the other if no carriage return is lost. -/
theorem patched?_rejoined_iff :
    patched? (Text.unlines (rejoined old new)) old = some new ↔
      ∀ h ∈ hunksBetween old new, ∀ x ∈ h.lines, ¬ EndsInReturn x.2 := by
  have hread := readHunks?_render dropReturn_header ⟨rfl, rfl⟩ rfl dropReturn_mark (hunksBetween old new)
  have hlength : ∀ line, (reshown Text.dropReturn line).length ≤ line.length := by
    intro line
    have hlength := length_reshown line
    omega
  have hfix : ∀ line : Line, (reshown Text.dropReturn line).length = line.length →
      reshown Text.dropReturn line = line := by
    intro line hline
    have hlength := length_reshown line
    rw [hline] at hlength
    refine reshown_eq_iff.2 fun hends => ?_
    rw [if_pos hends] at hlength
    omega
  have hpatch := follow_map_iff hlength hfix (follow_hunks (linesOf old.toList) (linesOf new.toList))
  rw [patched?, textLines_unlines (single_rejoined old new), toList_rejoined, hunkLines, hread]
  dsimp only
  rw [flatten_linesOf] at hpatch
  simp only [← reshown_eq_iff]
  refine Iff.trans ?_ hpatch
  rw [hunksBetween]
  cases follow? 0 0 (linesOf old.toList) _ with
  | none => simp
  | some lines => simp [← String.toList_inj]

end RosRecipes.Diff
