import RosRecipes.Text.Blank

/-!
# Splitting and joining

Pieces between separators hold no separator, and pieces without separators come back when they are joined and split
again (`split_join`).
-/

namespace RosRecipes.Text

variable {sep : Char}

/-! ### The first separator -/

section

variable {α : Type} [DecidableEq α] {x : α} {before : List α}

theorem takeWhile_ne_append (h : x ∉ before) (after : List α) : (before ++ x :: after).takeWhile (· ≠ x) = before := by
  have hall : ∀ c ∈ before, decide (c ≠ x) = true := fun c hc => decide_eq_true (ne_of_mem_of_not_mem hc h)
  rw [List.takeWhile_append_of_pos hall]
  simp

theorem dropWhile_ne_append (h : x ∉ before) (after : List α) :
    (before ++ x :: after).dropWhile (· ≠ x) = x :: after := by
  have hall : ∀ c ∈ before, decide (c ≠ x) = true := fun c hc => decide_eq_true (ne_of_mem_of_not_mem hc h)
  rw [List.dropWhile_append_of_pos hall]
  simp

end

/-! ### Pieces -/

/-- The first separator ends the first piece. -/
theorem split_append_sep {a : List Char} (h : sep ∉ a) (b : List Char) :
    split sep (a ++ sep :: b) = a :: split sep b := by
  induction a with
  | nil => simp [split]
  | cons c a ih =>
    rw [List.mem_cons, not_or] at h
    rw [List.cons_append, split, if_neg (Ne.symm h.1), ih h.2]

theorem split_of_not_mem {a : List Char} (h : sep ∉ a) : split sep a = [a] := by
  induction a with
  | nil => rfl
  | cons c a ih =>
    rw [List.mem_cons, not_or] at h
    rw [split, if_neg (Ne.symm h.1), ih h.2]

/-- What is split around a separator is split on either side of it. -/
theorem split_append (a b : List Char) : split sep (a ++ sep :: b) = split sep a ++ split sep b := by
  induction a with
  | nil => simp [split]
  | cons c a ih =>
    rw [List.cons_append, split, split, ih]
    by_cases hc : c = sep
    · rw [if_pos hc, if_pos hc, List.cons_append]
    · rw [if_neg hc, if_neg hc]
      obtain ⟨piece, pieces, ha⟩ := List.exists_cons_of_ne_nil (split_ne_nil sep a)
      rw [ha]
      rfl

theorem not_mem_of_mem_split {s piece : List Char} (h : piece ∈ split sep s) : sep ∉ piece := by
  induction s generalizing piece with
  | nil =>
    rw [split, List.mem_singleton] at h
    simp [h]
  | cons c s ih =>
    rw [split] at h
    split at h
    · rcases List.mem_cons.1 h with rfl | h
      · exact List.not_mem_nil
      · exact ih h
    · next hc =>
      cases hs : split sep s with
      | nil => exact absurd hs (split_ne_nil sep s)
      | cons first more =>
        rw [hs] at h
        rcases List.mem_cons.1 h with rfl | h
        · rw [List.mem_cons, not_or]
          exact ⟨Ne.symm hc, ih (hs ▸ List.mem_cons_self)⟩
        · exact ih (hs ▸ List.mem_cons_of_mem _ h)

theorem join_cons (piece : List Char) {pieces : List (List Char)} (h : pieces ≠ []) :
    join [sep] (piece :: pieces) = piece ++ sep :: join [sep] pieces := by
  cases pieces with
  | nil => exact absurd rfl h
  | cons p ps => simp [join]

/-- Pieces that hold no separator come back. -/
theorem split_join {pieces : List (List Char)} (hne : pieces ≠ []) (h : ∀ piece ∈ pieces, sep ∉ piece) :
    split sep (join [sep] pieces) = pieces := by
  induction pieces with
  | nil => exact absurd rfl hne
  | cons piece pieces ih =>
    have hpiece := h piece List.mem_cons_self
    by_cases hmore : pieces = []
    · subst hmore
      exact split_of_not_mem hpiece
    · rw [join_cons piece hmore, split_append_sep hpiece, ih hmore fun p hp => h p (List.mem_cons_of_mem _ hp)]

end RosRecipes.Text
