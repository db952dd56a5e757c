import RosRecipes.Proofs.Text.Split

/-!
# Lines of an answer

A program that prints lines ends each of them with a line feed (`unlines`).  Without the blanks at the end of the
whole, the lines are still those that were printed (`lines_trim_unlines`).
-/

namespace RosRecipes.Text

/-- One line of an answer, with no blank at its start or its end. -/
structure IsLine (s : List Char) : Prop where
  start : s.head?.any (!isBlank ·) = true
  stop : s.getLast?.any (!isBlank ·) = true
  single : '\n' ∉ s

instance (s : List Char) : Decidable (IsLine s) :=
  decidable_of_iff (s.head?.any (!isBlank ·) = true ∧ s.getLast?.any (!isBlank ·) = true ∧ '\n' ∉ s)
    ⟨fun ⟨start, stop, single⟩ => ⟨start, stop, single⟩, fun ⟨start, stop, single⟩ => ⟨start, stop, single⟩⟩

variable {s : List Char} {ls : List (List Char)}

theorem IsLine.ne_nil (h : IsLine s) : s ≠ [] := by
  rintro rfl
  cases h.start

private theorem dropWhile_of_start (h : s.head?.any (!isBlank ·) = true) (t : List Char) :
    (s ++ t).dropWhile isBlank = s ++ t := by
  cases s with
  | nil => cases h
  | cons c s => exact List.dropWhile_cons_of_neg (by simpa using h)

theorem isBlank_lineFeed : ∀ c ∈ ['\n'], isBlank c = true := by
  rintro _ (_ | ⟨_, ⟨⟩⟩)
  decide +kernel

/-- Blanks at the end do not count. -/
theorem trim_append_blanks (hstart : s.head?.any (!isBlank ·) = true) (hstop : s.getLast?.any (!isBlank ·) = true)
    {blanks : List Char} (h : ∀ c ∈ blanks, isBlank c = true) : trim (s ++ blanks) = s := by
  have hreverse : s.reverse.dropWhile isBlank = s.reverse := by
    rw [← List.head?_reverse] at hstop
    simpa using dropWhile_of_start hstop []
  have hblanks : ∀ c ∈ blanks.reverse, isBlank c = true := fun c hc => h c (List.mem_reverse.1 hc)
  rw [trim, dropWhile_of_start hstart, trimEnd, List.reverse_append, List.dropWhile_append_of_pos hblanks, hreverse,
    List.reverse_reverse]

theorem IsLine.trim (h : IsLine s) : trim s = s := by
  have hnone : ∀ c ∈ ([] : List Char), isBlank c = true := nofun
  simpa using trim_append_blanks h.start h.stop hnone

/-! ### Several lines -/

private theorem join_start (h : ∀ l ∈ ls, IsLine l) (hne : ls ≠ []) :
    (join ['\n'] ls).head?.any (!isBlank ·) = true := by
  obtain ⟨l, ls, rfl⟩ := List.exists_cons_of_ne_nil hne
  have hl := h l List.mem_cons_self
  by_cases hmore : ls = []
  · subst hmore
    exact hl.start
  · obtain ⟨c, l, rfl⟩ := List.exists_cons_of_ne_nil hl.ne_nil
    rw [join_cons _ hmore]
    exact hl.start

private theorem join_stop (h : ∀ l ∈ ls, IsLine l) (hne : ls ≠ []) :
    (join ['\n'] ls).getLast?.any (!isBlank ·) = true := by
  induction ls with
  | nil => exact absurd rfl hne
  | cons l ls ih =>
    by_cases hmore : ls = []
    · subst hmore
      exact (h l List.mem_cons_self).stop
    · have hrest := ih (fun l hl => h l (List.mem_cons_of_mem _ hl)) hmore
      have hrest_ne : join ['\n'] ls ≠ [] := by
        intro hnil
        rw [hnil] at hrest
        cases hrest
      rw [join_cons l hmore, List.getLast?_append, List.getLast?_cons_of_ne_nil hrest_ne,
        List.getLast?_eq_some_getLast hrest_ne]
      rw [List.getLast?_eq_some_getLast hrest_ne] at hrest
      exact hrest

theorem dropReturn_of_ne (h : s.getLast? ≠ some '\r') : dropReturn s = s := by
  unfold dropReturn
  split
  · next hreturn => exact absurd hreturn h
  · rfl

/-- Pieces are the lines of the text that they are joined to, if none holds a line feed or ends in a carriage return
and the last one is not empty. -/
theorem lines_join_of (hsingle : ∀ l ∈ ls, '\n' ∉ l) (hreturn : ∀ l ∈ ls, l.getLast? ≠ some '\r') (hne : ls ≠ [])
    (hfilled : ls.getLast hne ≠ []) : lines (join ['\n'] ls) = ls := by
  have hkept : ls.dropLast.map dropReturn = ls.dropLast := by
    refine List.map_congr_left (fun l hl => ?_) |>.trans (List.map_id _)
    exact dropReturn_of_ne (hreturn l (List.dropLast_subset ls hl))
  have hlast : ls.getLast? = some (ls.getLast hne) := List.getLast?_eq_some_getLast hne
  have happend := List.dropLast_concat_getLast hne
  unfold lines
  rw [split_join hne hsingle]
  dsimp only
  rw [hkept, hlast]
  split
  · next heq => exact absurd (Option.some.inj heq) hfilled
  · next heq => rw [← Option.some.inj heq, happend]
  · next heq => cases heq

/-- Lines that are joined come back. -/
theorem lines_join (h : ∀ l ∈ ls, IsLine l) (hne : ls ≠ []) : lines (join ['\n'] ls) = ls := by
  refine lines_join_of (fun l hl => (h l hl).single) (fun l hl hreturn => ?_) hne (h _ (List.getLast_mem hne)).ne_nil
  have hstop := (h l hl).stop
  rw [hreturn] at hstop
  exact absurd hstop (by decide)

theorem unlines_append (ls ms : List String) : unlines (ls ++ ms) = unlines ls ++ unlines ms := by
  unfold unlines
  rw [List.map_append, String.join_append]

theorem toList_unlines {ls : List String} (hne : ls ≠ []) :
    (unlines ls).toList = join ['\n'] (ls.map String.toList) ++ ['\n'] := by
  have hone : ∀ l : String, (l ++ "\n").toList = l.toList ++ ['\n'] := fun l => String.toList_append
  simp only [unlines, String.toList_join, List.flatMap_map, hone]
  induction ls with
  | nil => exact absurd rfl hne
  | cons l ls ih =>
    by_cases hmore : ls = []
    · subst hmore
      simp [join]
    · have hmap : ls.map String.toList ≠ [] := by simpa using hmore
      rw [List.flatMap_cons, ih hmore, List.map_cons, join_cons _ hmap]
      simp

/-- Lines that are printed come back, but for the carriage returns at their ends. -/
theorem lines_unlines {ls : List String} (h : ∀ l ∈ ls, '\n' ∉ l.toList) :
    lines (unlines ls).toList = ls.map fun l => dropReturn l.toList := by
  have hsplit : split '\n' (unlines ls).toList = ls.map String.toList ++ [[]] := by
    by_cases hne : ls = []
    · subst hne
      rfl
    · have hmap : ls.map String.toList ≠ [] := by simpa using hne
      have hsingle : ∀ l ∈ ls.map String.toList, '\n' ∉ l := by simpa using h
      rw [toList_unlines hne, split_append, split_join hmap hsingle]
      rfl
  unfold lines
  rw [hsplit]
  simp

/-- The lines of an answer are those that were printed. -/
theorem lines_trim_unlines {ls : List String} (h : ∀ l ∈ ls, IsLine l.toList) :
    lines (trim (unlines ls).toList) = ls.map String.toList := by
  by_cases hne : ls = []
  · subst hne
    decide +kernel
  · have hmap : ∀ l ∈ ls.map String.toList, IsLine l := by simpa using h
    have hne' : ls.map String.toList ≠ [] := by simpa using hne
    rw [toList_unlines hne, trim_append_blanks (join_start hmap hne') (join_stop hmap hne') isBlank_lineFeed,
      lines_join hmap hne']

end RosRecipes.Text
