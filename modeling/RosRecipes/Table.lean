/-!
# Finite maps

A table is an association list with at most one entry per key.  What an operation does is said through
`get?`: see `get?_insert`.
-/

namespace RosRecipes

/-- A finite map. -/
structure Table (κ ν : Type) where
  entries : List (κ × ν)
deriving Repr

namespace Table

variable {κ ν : Type} [DecidableEq κ]

instance : EmptyCollection (Table κ ν) := ⟨⟨[]⟩⟩

instance : Inhabited (Table κ ν) := ⟨∅⟩

def get? (t : Table κ ν) (k : κ) : Option ν := t.entries.lookup k

def size (t : Table κ ν) : Nat := t.entries.length

def contains (t : Table κ ν) (k : κ) : Bool := (t.get? k).isSome

/-- Drops the entry of a key. -/
def erase (t : Table κ ν) (k : κ) : Table κ ν := ⟨t.entries.filter fun e => decide (e.1 ≠ k)⟩

/-- Sets the entry of a key. -/
def insert (t : Table κ ν) (k : κ) (v : ν) : Table κ ν := ⟨(k, v) :: (t.erase k).entries⟩

/-- Adds an entry for a key that has none. -/
def insertNew (t : Table κ ν) (k : κ) (v : ν) : Table κ ν := if t.contains k then t else t.insert k v

@[simp] theorem get?_empty (k : κ) : (∅ : Table κ ν).get? k = none := rfl

theorem get?_erase (t : Table κ ν) (k k' : κ) :
    (t.erase k).get? k' = if k' = k then none else t.get? k' := by
  obtain ⟨entries⟩ := t
  simp only [erase, get?]
  induction entries with
  | nil => simp
  | cons e es ih =>
    obtain ⟨a, v⟩ := e
    by_cases ha : a = k
    · rw [List.filter_cons_of_neg (by simp [ha]), ih]
      by_cases hk : k' = k
      · simp [hk]
      · have : (k' == a) = false := by simpa [ha] using hk
        simp [hk, List.lookup_cons, this]
    · rw [List.filter_cons_of_pos (by simp [ha]), List.lookup_cons, List.lookup_cons, ih]
      by_cases hka : k' = a
      · simp [hka, ha]
      · have : (k' == a) = false := by simpa using hka
        simp [this]

theorem get?_insert (t : Table κ ν) (k k' : κ) (v : ν) :
    (t.insert k v).get? k' = if k' = k then some v else t.get? k' := by
  have h := get?_erase t k k'
  simp only [get?] at h
  simp only [insert, get?, List.lookup_cons]
  by_cases hk : k' = k
  · simp [hk]
  · have : (k' == k) = false := by simpa using hk
    simp [this, h, hk]

theorem get?_insertNew (t : Table κ ν) (k k' : κ) (v : ν) :
    (t.insertNew k v).get? k' = if k' = k then some ((t.get? k).getD v) else t.get? k' := by
  unfold insertNew contains
  cases h : t.get? k with
  | none => simp [get?_insert]
  | some w =>
    by_cases hk : k' = k
    · simp [hk, h]
    · simp [hk]

end Table

end RosRecipes
