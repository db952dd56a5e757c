import RosRecipes.Text.Search
import RosRecipes.Text.Utf8

/-!
# Cutting a text by bytes

A text is cut at the bytes where one of its parts ends.  A cut inside of a part depends on that part only.
-/

namespace RosRecipes.Text

variable {a b c s rest : List Char} {n : Nat}

theorem byteLength_nil : byteLength [] = 0 := rfl

theorem length_le_byteLength (s : List Char) : s.length ≤ byteLength s := by
  induction s with
  | nil => exact Nat.le_refl _
  | cons x s ih =>
    have hsize := x.utf8Size_pos
    rw [byteLength_cons, List.length_cons]
    omega

theorem byteLength_eq_length (h : ∀ x ∈ s, x.utf8Size = 1) : byteLength s = s.length := by
  induction s with
  | nil => rfl
  | cons x s ih =>
    rw [byteLength_cons, h x List.mem_cons_self, ih fun y hy => h y (List.mem_cons_of_mem x hy), List.length_cons,
      Nat.add_comm]

theorem dropBytes?_cons {x : Char} (hn : 0 < n) :
    dropBytes? n (x :: s) = if x.utf8Size ≤ n then dropBytes? (n - x.utf8Size) s else none := by
  obtain ⟨m, rfl⟩ := Nat.exists_eq_succ_of_ne_zero (Nat.ne_of_gt hn)
  rw [dropBytes?]

theorem takeBytes?_cons {x : Char} (hn : 0 < n) :
    takeBytes? n (x :: s) = if x.utf8Size ≤ n then (takeBytes? (n - x.utf8Size) s).map (x :: ·) else none := by
  obtain ⟨m, rfl⟩ := Nat.exists_eq_succ_of_ne_zero (Nat.ne_of_gt hn)
  rw [takeBytes?]

/-- Whole parts are dropped first. -/
theorem dropBytes?_append_right (a s : List Char) (n : Nat) :
    dropBytes? (byteLength a + n) (a ++ s) = dropBytes? n s := by
  induction a with
  | nil => rw [byteLength_nil, Nat.zero_add, List.nil_append]
  | cons x a ih =>
    have hsize := x.utf8Size_pos
    rw [byteLength_cons, List.cons_append, dropBytes?_cons (by omega), if_pos (by omega),
      show x.utf8Size + byteLength a + n - x.utf8Size = byteLength a + n by omega, ih]

/-- A cut inside of a part leaves the rest alone. -/
theorem dropBytes?_append_left (a s : List Char) (hn : n ≤ byteLength a) :
    dropBytes? n (a ++ s) = (dropBytes? n a).map (· ++ s) := by
  induction a generalizing n with
  | nil =>
    obtain rfl : n = 0 := Nat.le_zero.1 hn
    rw [dropBytes?, dropBytes?]
    rfl
  | cons x a ih =>
    rcases Nat.eq_zero_or_pos n with rfl | hpos
    · rw [dropBytes?, dropBytes?]
      rfl
    · rw [byteLength_cons] at hn
      rw [List.cons_append, dropBytes?_cons hpos, dropBytes?_cons hpos]
      split
      · exact ih (by omega)
      · rfl

theorem byteLength_of_dropBytes? (h : dropBytes? n s = some rest) : byteLength s = n + byteLength rest := by
  induction s generalizing n with
  | nil =>
    cases n with
    | zero =>
      rw [dropBytes?] at h
      cases h
      rfl
    | succ n =>
      rw [dropBytes?] at h
      cases h
  | cons x s ih =>
    rcases Nat.eq_zero_or_pos n with rfl | hpos
    · rw [dropBytes?] at h
      cases h
      exact (Nat.zero_add _).symm
    · rw [dropBytes?_cons hpos] at h
      split at h
      · rw [byteLength_cons, ih h]
        omega
      · cases h

theorem takeBytes?_append (a s : List Char) : takeBytes? (byteLength a) (a ++ s) = some a := by
  induction a with
  | nil => rw [byteLength_nil, takeBytes?]
  | cons x a ih =>
    have hsize := x.utf8Size_pos
    rw [byteLength_cons, List.cons_append, takeBytes?_cons (by omega), if_pos (by omega), Nat.add_sub_cancel_left, ih]
    rfl

/-- The last bytes of a text; `none` if they begin inside of a character. -/
def lastBytes? (n : Nat) (s : List Char) : Option (List Char) := dropBytes? (byteLength s - n) s

theorem lastBytes?_zero (s : List Char) : lastBytes? 0 s = some [] := by
  have hdrop := dropBytes?_append_right s [] 0
  rw [List.append_nil, dropBytes?] at hdrop
  exact hdrop

/-- A slice between two parts, with both places shifted to the left by some bytes: it begins in the part before and
ends in the part after it. -/
theorem sliceBytes?_shifted (before opening inner closing lost after : List Char) (hn : n ≤ byteLength opening)
    (hlost : byteLength lost = n) :
    sliceBytes? (byteLength (before ++ opening) - n) (byteLength (before ++ opening ++ inner ++ closing ++ lost) - n)
        (before ++ opening ++ inner ++ closing ++ lost ++ after) =
      (lastBytes? n opening).map (· ++ inner ++ closing) := by
  have hstart : byteLength (before ++ opening) - n = byteLength before + (byteLength opening - n) := by
    rw [byteLength_append]
    omega
  have hstop : byteLength (before ++ opening ++ inner ++ closing ++ lost) - n =
      byteLength (before ++ opening ++ inner ++ closing) := by
    rw [byteLength_append _ lost, hlost, Nat.add_sub_cancel]
  have hle : byteLength (before ++ opening) - n ≤ byteLength (before ++ opening ++ inner ++ closing) := by
    rw [byteLength_append _ closing, byteLength_append _ inner]
    omega
  have hdrop : dropBytes? (byteLength (before ++ opening) - n)
      (before ++ opening ++ inner ++ closing ++ lost ++ after) =
      (lastBytes? n opening).map (· ++ (inner ++ closing ++ lost ++ after)) := by
    rw [hstart]
    simp only [List.append_assoc]
    rw [dropBytes?_append_right, dropBytes?_append_left _ _ (Nat.sub_le _ _)]
    rfl
  rw [hstop, sliceBytes?, if_pos hle, hdrop]
  cases hlast : lastBytes? n opening with
  | none => rfl
  | some kept =>
    have hkept : byteLength opening = byteLength opening - n + byteLength kept := byteLength_of_dropBytes? hlast
    have hcount : byteLength (before ++ opening ++ inner ++ closing) - (byteLength (before ++ opening) - n) =
        byteLength (kept ++ inner ++ closing) := by
      simp only [byteLength_append]
      omega
    rw [Option.map_some, Option.bind_some, hcount, Option.map_some, ← takeBytes?_append _ (lost ++ after)]
    simp only [List.append_assoc]

/-! ### The last mark -/

/-- The last mark is the one that nothing of its kind follows. -/
theorem splitLast?_eq_some {first : Char} {others before after : List Char} (h : first ∉ others ++ after) :
    splitLast? (first :: others) (before ++ first :: others ++ after) = some (before, after) := by
  have hnone : ∀ tail : List Char, first ∉ tail → splitLast? (first :: others) tail = none := by
    intro tail htail
    induction tail with
    | nil => rfl
    | cons x tail ih =>
      rw [List.mem_cons, not_or] at htail
      rw [splitLast?, ih htail.2, dropStart?, if_neg htail.1]
      rfl
  induction before with
  | nil =>
    rw [List.nil_append, List.cons_append, splitLast?, hnone _ h, dropStart?, if_pos rfl, dropStart?_append]
    rfl
  | cons x before ih => rw [List.cons_append, List.cons_append, splitLast?, ih]

end RosRecipes.Text
