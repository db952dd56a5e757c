/-!
# Sets of names

A set of names is the strictly increasing list of its members, in the order of their code points.  So two
sets with the same members are equal (`NameSet.ext_mem`), and listing a set is listing it in order.

* `mem_insert`, `mem_union`, `mem_sdiff`, `mem_ofList` say what each operation does to membership.
-/

namespace RosRecipes

/-- Inserts a name into an increasing list, once. -/
def insertName (x : String) : List String → List String
  | [] => [x]
  | y :: ys => if x < y then x :: y :: ys else if x = y then y :: ys else y :: insertName x ys

theorem mem_insertName {x y : String} {l : List String} : y ∈ insertName x l ↔ y = x ∨ y ∈ l := by
  induction l with
  | nil => simp [insertName]
  | cons a l ih =>
    unfold insertName
    split
    · simp
    · split
      · next h => subst h; simp
      · simp only [List.mem_cons, ih]
        exact or_left_comm

theorem insertName_increasing {x : String} {l : List String} (h : l.Pairwise (· < ·)) :
    (insertName x l).Pairwise (· < ·) := by
  induction l with
  | nil => simp [insertName]
  | cons a l ih =>
    rw [List.pairwise_cons] at h
    unfold insertName
    split
    · next hx =>
      refine List.pairwise_cons.2 ⟨?_, List.pairwise_cons.2 h⟩
      intro z hz
      rcases List.mem_cons.1 hz with rfl | hz
      · exact hx
      · exact String.lt_trans hx (h.1 z hz)
    · next hx =>
      split
      · exact List.pairwise_cons.2 h
      · next hne =>
        have hax : a < x := by
          rcases Classical.em (x ≤ a) with hle | hle
          · exact absurd (String.le_antisymm hle (String.not_lt.1 hx)) hne
          · exact String.not_le.1 hle
        refine List.pairwise_cons.2 ⟨?_, ih h.2⟩
        intro z hz
        rcases mem_insertName.1 hz with rfl | hz
        · exact hax
        · exact h.1 z hz

/-- A finite set of names. -/
structure NameSet where
  toList : List String
  increasing : toList.Pairwise (· < ·)
deriving DecidableEq

namespace NameSet

instance : EmptyCollection NameSet := ⟨⟨[], .nil⟩⟩

instance : Inhabited NameSet := ⟨∅⟩

instance : Membership String NameSet := ⟨fun s x => x ∈ s.toList⟩

instance (x : String) (s : NameSet) : Decidable (x ∈ s) := inferInstanceAs (Decidable (x ∈ s.toList))

def isEmpty (s : NameSet) : Bool := s.toList.isEmpty

def insert (x : String) (s : NameSet) : NameSet :=
  ⟨insertName x s.toList, insertName_increasing s.increasing⟩

def ofList (xs : List String) : NameSet := xs.foldl (fun s x => s.insert x) ∅

/-- All members of both sets. -/
def union (s t : NameSet) : NameSet := t.toList.foldl (fun s x => s.insert x) s

instance : Union NameSet := ⟨union⟩

/-- The members of `s` that satisfy `p`. -/
def filter (p : String → Bool) (s : NameSet) : NameSet :=
  ⟨s.toList.filter p, s.increasing.filter p⟩

/-- The members of `s` that are not in `t`. -/
def sdiff (s t : NameSet) : NameSet := s.filter fun x => decide (x ∉ t)

instance : SDiff NameSet := ⟨sdiff⟩

/-- The images of the members. -/
def image (f : String → String) (s : NameSet) : NameSet := ofList (s.toList.map f)

theorem mem_def {x : String} {s : NameSet} : x ∈ s ↔ x ∈ s.toList := Iff.rfl

@[simp] theorem not_mem_empty (x : String) : x ∉ (∅ : NameSet) := List.not_mem_nil

@[simp] theorem mem_insert {x y : String} {s : NameSet} : y ∈ s.insert x ↔ y = x ∨ y ∈ s :=
  mem_insertName

theorem mem_foldl_insert {y : String} (xs : List String) (s : NameSet) :
    y ∈ xs.foldl (fun s x => s.insert x) s ↔ y ∈ s ∨ y ∈ xs := by
  induction xs generalizing s with
  | nil => simp
  | cons x xs ih =>
    rw [List.foldl_cons, ih, mem_insert, List.mem_cons]
    constructor
    · rintro ((h | h) | h)
      · exact .inr (.inl h)
      · exact .inl h
      · exact .inr (.inr h)
    · rintro (h | h | h)
      · exact .inl (.inr h)
      · exact .inl (.inl h)
      · exact .inr h

@[simp] theorem mem_ofList {y : String} {xs : List String} : y ∈ ofList xs ↔ y ∈ xs := by
  simp [ofList, mem_foldl_insert]

@[simp] theorem mem_union {y : String} {s t : NameSet} : y ∈ s ∪ t ↔ y ∈ s ∨ y ∈ t :=
  mem_foldl_insert t.toList s

@[simp] theorem mem_filter {y : String} {p : String → Bool} {s : NameSet} :
    y ∈ s.filter p ↔ y ∈ s ∧ p y := List.mem_filter

@[simp] theorem mem_sdiff {y : String} {s t : NameSet} : y ∈ s \ t ↔ y ∈ s ∧ y ∉ t := by
  refine (mem_filter (s := s)).trans ?_
  simp

@[simp] theorem mem_image {y : String} {f : String → String} {s : NameSet} :
    y ∈ s.image f ↔ ∃ x ∈ s, f x = y := by
  rw [image, mem_ofList, List.mem_map]
  rfl

theorem nodup_toList (s : NameSet) : s.toList.Nodup := s.increasing.imp String.ne_of_lt

/-- An increasing list is determined by its members. -/
theorem increasing_ext {l m : List String} (hl : l.Pairwise (· < ·)) (hm : m.Pairwise (· < ·))
    (h : ∀ x, x ∈ l ↔ x ∈ m) : l = m := by
  induction l generalizing m with
  | nil =>
    cases m with
    | nil => rfl
    | cons b m => exact absurd ((h b).2 (by simp)) (by simp)
  | cons a l ih =>
    cases m with
    | nil => exact absurd ((h a).1 (by simp)) (by simp)
    | cons b m =>
      rw [List.pairwise_cons] at hl hm
      have hab : a = b := by
        rcases List.mem_cons.1 ((h a).1 (by simp)) with ha | ha
        · exact ha
        rcases List.mem_cons.1 ((h b).2 (by simp)) with hb | hb
        · exact hb.symm
        · exact absurd (hm.1 a ha) (String.lt_asymm (hl.1 b hb))
      subst hab
      congr 1
      refine ih hl.2 hm.2 fun x => ⟨fun hx => ?_, fun hx => ?_⟩
      · rcases List.mem_cons.1 ((h x).1 (List.mem_cons_of_mem _ hx)) with rfl | hx'
        · exact absurd (hl.1 x hx) (String.lt_irrefl x)
        · exact hx'
      · rcases List.mem_cons.1 ((h x).2 (List.mem_cons_of_mem _ hx)) with rfl | hx'
        · exact absurd (hm.1 x hx) (String.lt_irrefl x)
        · exact hx'

/-- Two sets with the same members are equal. -/
theorem ext_mem {s t : NameSet} (h : ∀ x, x ∈ s ↔ x ∈ t) : s = t := by
  obtain ⟨l, hl⟩ := s
  obtain ⟨m, hm⟩ := t
  have : l = m := increasing_ext hl hm h
  subst this
  rfl

end NameSet

end RosRecipes
