import Mathlib.Data.List.Nodup
import RosRecipes.Table

/-!
# Keys of a table

What has an entry in a table (`Table.keys`), and how adding entries for keys that have none (`Table.insertNew`) changes
both the keys and the values: keys stay distinct (`nodup_keys_insertNew`), and a whole list of entries is added behind
those that are there (`get?_foldl_insertNew`).
-/

namespace RosRecipes.Table

variable {κ ν : Type} [DecidableEq κ] {t u : Table κ ν} {k : κ} {v : ν}

/-- The keys that have an entry. -/
def keys (t : Table κ ν) : List κ := t.entries.map (·.1)

omit [DecidableEq κ] in
theorem size_eq_length_keys (t : Table κ ν) : t.size = t.keys.length := (List.length_map _).symm

theorem get?_eq_none_iff : t.get? k = none ↔ k ∉ t.keys := by
  rw [get?, List.lookup_eq_none_iff, keys, List.mem_map]
  constructor
  · rintro h ⟨entry, hentry, rfl⟩
    have hne := h entry hentry
    simp at hne
  · intro h entry hentry
    exact bne_iff_ne.2 fun heq => h ⟨entry, hentry, heq.symm⟩

theorem contains_iff : t.contains k = true ↔ k ∈ t.keys := by
  rw [contains, Option.isSome_iff_ne_none, Ne, get?_eq_none_iff, Classical.not_not]

/-- Where no key comes twice, the order of the entries does not matter. -/
theorem get?_eq_of_perm (hnodup : t.keys.Nodup) (h : t.entries.Perm u.entries) : t.get? k = u.get? k := by
  have hmem : ∀ {s : Table κ ν}, s.keys.Nodup → ∀ v, s.get? k = some v ↔ (k, v) ∈ s.entries := by
    intro s hs v
    obtain ⟨entries⟩ := s
    unfold get?
    induction entries with
    | nil => simp
    | cons entry entries ih =>
      obtain ⟨key, value⟩ := entry
      obtain ⟨hfirst, hrest⟩ := List.nodup_cons.1 hs
      rw [List.lookup_cons, List.mem_cons, Prod.mk.injEq]
      by_cases hkey : k = key
      · subst hkey
        have hnot : (k, v) ∉ entries := fun hv => hfirst (List.mem_map.2 ⟨(k, v), hv, rfl⟩)
        simp [hnot, eq_comm]
      · have hne : (k == key) = false := beq_false_of_ne hkey
        rw [hne, ih hrest]
        simp [hkey]
  have hkeys : u.keys.Nodup := (h.map Prod.fst).nodup_iff.1 hnodup
  refine Option.ext fun v => ?_
  rw [hmem hnodup, hmem hkeys, h.mem_iff]

/-! ### Adding entries -/

/-- To set an entry keeps the keys distinct. -/
theorem nodup_keys_insert (h : t.keys.Nodup) : (t.insert k v).keys.Nodup := by
  refine List.nodup_cons.2 ⟨fun hk => ?_, h.sublist (List.filter_sublist.map _)⟩
  obtain ⟨entry, hentry, heq⟩ := List.mem_map.1 hk
  exact of_decide_eq_true (List.mem_filter.1 hentry).2 heq

theorem insertNew_of_mem (h : k ∈ t.keys) : t.insertNew k v = t := if_pos (contains_iff.2 h)

theorem insertNew_of_not_mem (h : k ∉ t.keys) : t.insertNew k v = t.insert k v :=
  if_neg fun hc => h (contains_iff.1 hc)

theorem nodup_keys_insertNew (h : t.keys.Nodup) : (t.insertNew k v).keys.Nodup := by
  by_cases hk : k ∈ t.keys
  · rwa [insertNew_of_mem hk]
  · rw [insertNew_of_not_mem hk]
    exact nodup_keys_insert h

/-- What is added lies behind what is there. -/
theorem get?_foldl_insertNew (entries : List (κ × ν)) (t : Table κ ν) (k : κ) :
    (entries.foldl (fun (t : Table κ ν) (key, value) => t.insertNew key value) t).get? k =
      (t.get? k).or (entries.lookup k) := by
  induction entries generalizing t with
  | nil => rw [List.foldl_nil, List.lookup_nil, Option.or_none]
  | cons entry entries ih =>
    obtain ⟨key, value⟩ := entry
    rw [List.foldl_cons, ih, get?_insertNew, List.lookup_cons]
    by_cases hkey : k = key
    · subst hkey
      cases t.get? k <;> simp
    · have hne : (k == key) = false := beq_false_of_ne hkey
      rw [if_neg hkey, hne]

end RosRecipes.Table
