/-!
# Shared starts

What two lists have in common at their starts and at their ends.

* `take_sharedStart` and `drop_sharedEnd` say that the parts so found are equal.
-/

namespace RosRecipes

variable {α : Type} [DecidableEq α]

/-- The number of elements that two lists have in common at the start. -/
def sharedStart : List α → List α → Nat
  | a :: as, b :: bs => if a = b then sharedStart as bs + 1 else 0
  | _, _ => 0

/-- The number of elements that two lists have in common at the end. -/
def sharedEnd (as bs : List α) : Nat := sharedStart as.reverse bs.reverse

theorem take_sharedStart (as bs : List α) : as.take (sharedStart as bs) = bs.take (sharedStart as bs) := by
  fun_induction sharedStart as bs with
  | case1 as b bs ih => simp [ih]
  | case2 => simp
  | case3 => simp

/-- After the shared start the lists go on differently, if both do. -/
theorem head?_drop_sharedStart (as bs : List α) :
    ∀ a ∈ (as.drop (sharedStart as bs)).head?, ∀ b ∈ (bs.drop (sharedStart as bs)).head?, a ≠ b := by
  fun_induction sharedStart as bs with
  | case1 as b bs ih => simpa using ih
  | case2 a as b bs hne => simpa using hne
  | case3 as bs hnil =>
    intro a ha b hb
    cases as with
    | nil => cases ha
    | cons x as =>
      cases bs with
      | nil => cases hb
      | cons y bs => exact absurd rfl (hnil x as y bs rfl)

theorem sharedStart_le_right (as bs : List α) : sharedStart as bs ≤ bs.length := by
  fun_induction sharedStart as bs with
  | case1 as b bs ih => simpa using ih
  | case2 => simp
  | case3 => simp

theorem drop_sharedEnd (as bs : List α) :
    as.drop (as.length - sharedEnd as bs) = bs.drop (bs.length - sharedEnd as bs) := by
  have h := congrArg List.reverse (take_sharedStart as.reverse bs.reverse)
  rw [List.reverse_take, List.reverse_take] at h
  simpa [sharedEnd] using h

theorem sharedEnd_le_right (as bs : List α) : sharedEnd as bs ≤ bs.length := by
  simpa [sharedEnd] using sharedStart_le_right as.reverse bs.reverse

end RosRecipes
