import Mathlib.Data.List.Basic
import RosRecipes.Provenance.Cache

/-!
# Keys of the stored cache

An entry is kept for a repository or for a directory in it (`StoredCache.Scope`), under a key that joins the address
and the directory with a mark.  A key that holds the mark twice can be cut at either of them (`Scope.ReadsLike`).

* `Scope.key_eq_key_iff`: two scopes have one key just if they read like each other.
* `found_of_scopes_alike`: what is found for a scope is what was inserted last for a scope that reads like it.  Scopes
  of one address, and scopes whose addresses do not have the mark, never mix.
-/

namespace RosRecipes

/-- The mark between the address of a repository and the directory in a key. -/
def directoryMark : List Char := "?dir=".toList

/-- The text does not have the mark in it. -/
def Unmarked (s : String) : Prop := ¬ directoryMark <:+: s.toList

namespace StoredCache

/-- What an entry is kept for: a repository, or a directory in it. -/
structure Scope where
  url : String
  directory : Option String
deriving DecidableEq, Repr

namespace Scope

variable {s t : Scope}

def key (s : Scope) : String := StoredCache.key s.url s.directory

/-- The key of `s`, cut at an earlier mark, is that of `t`: the address of `s` goes on after that of `t`, and so begins
the directory of `t`. -/
def CutEarlier (s t : Scope) : Prop :=
  ∃ text, s.url = StoredCache.key t.url (some text) ∧ t.directory = some (StoredCache.key text s.directory)

/-- The scopes are one, or their key can be cut at two marks. -/
def ReadsLike (s t : Scope) : Prop := s = t ∨ s.CutEarlier t ∨ t.CutEarlier s

/-! ### What a key tells -/

/-- What follows the address in a key. -/
private def ending (directory : Option String) : List Char := directory.elim [] fun d => directoryMark ++ d.toList

private theorem ending_some (d : String) : ending (some d) = directoryMark ++ d.toList := rfl

private theorem toList_key (url : String) (directory : Option String) :
    (StoredCache.key url directory).toList = url.toList ++ ending directory := by
  cases directory with
  | none => exact (List.append_nil _).symm
  | some d =>
    rw [StoredCache.key, String.toList_append, String.toList_append, List.append_assoc]
    rfl

private theorem ending_inj {d d' : Option String} (h : ending d = ending d') : d = d' := by
  have hmark : directoryMark ≠ [] := by decide
  match d, d', h with
  | none, none, _ => rfl
  | none, some d', h => exact absurd (List.append_eq_nil_iff.1 h.symm).1 hmark
  | some d, none, h => exact absurd (List.append_eq_nil_iff.1 h).1 hmark
  | some d, some d', h => exact congrArg some (String.toList_inj.1 (List.append_cancel_left h))

/-- Whatever stands between two places where a mark may begin is nothing, or begins with a mark itself. -/
private theorem between_marks {x d : List Char} {directory : Option String}
    (h : directoryMark ++ d = x ++ ending directory) : x = [] ∨ ∃ text, x = directoryMark ++ text := by
  have hmark : directoryMark = ['?', 'd', 'i', 'r', '='] := by decide +kernel
  cases directory with
  | none => exact .inr ⟨d, by rw [h]; exact (List.append_nil x).symm⟩
  | some d' =>
    -- No end of the mark is one of its starts.
    rw [ending_some, hmark] at h
    rw [hmark]
    rcases x with _ | ⟨x₁, _ | ⟨x₂, _ | ⟨x₃, _ | ⟨x₄, _ | ⟨x₅, x⟩⟩⟩⟩⟩
    · exact .inl rfl
    · simp at h
    · simp at h
    · simp at h
    · simp at h
    · simp only [List.cons_append, List.nil_append, List.cons.injEq] at h
      obtain ⟨rfl, rfl, rfl, rfl, rfl, -⟩ := h
      exact .inr ⟨x, rfl⟩

private theorem cutEarlier_of_longer {x : List Char} (hurl : t.url.toList = s.url.toList ++ x)
    (hending : ending s.directory = x ++ ending t.directory) : s = t ∨ t.CutEarlier s := by
  obtain ⟨url, directory⟩ := s
  obtain ⟨url', directory'⟩ := t
  dsimp only at hurl hending
  have hone (hx : x = []) : (⟨url, directory⟩ : Scope) = ⟨url', directory'⟩ := by
    rw [hx, List.append_nil, String.toList_inj] at hurl
    rw [hx, List.nil_append] at hending
    rw [hurl, ending_inj hending]
  cases directory with
  | none => exact .inl (hone (List.append_eq_nil_iff.1 hending.symm).1)
  | some d =>
    rcases between_marks hending with hx | ⟨text, rfl⟩
    · exact .inl (hone hx)
    · rw [ending_some, List.append_assoc] at hending
      refine .inr ⟨.ofList text, ?_, congrArg some ?_⟩
      · rw [← String.toList_inj, hurl, toList_key, ending_some, String.toList_ofList]
      · rw [← String.toList_inj, toList_key, String.toList_ofList]
        exact List.append_cancel_left hending

private theorem key_of_cutEarlier (h : s.CutEarlier t) : s.key = t.key := by
  obtain ⟨text, hurl, hdirectory⟩ := h
  rw [← String.toList_inj, key, key, toList_key, toList_key, hurl, hdirectory, toList_key, ending_some, ending_some,
    toList_key, List.append_assoc, List.append_assoc]

/-- Scopes have one key just if they read like each other. -/
theorem key_eq_key_iff : s.key = t.key ↔ s.ReadsLike t := by
  constructor
  · intro h
    rw [key, key, ← String.toList_inj, toList_key, toList_key] at h
    rcases List.append_eq_append_iff.1 h with ⟨x, hurl, hending⟩ | ⟨x, hurl, hending⟩
    · rcases cutEarlier_of_longer hurl hending with heq | hcut
      · exact .inl heq
      · exact .inr (.inr hcut)
    · rcases cutEarlier_of_longer hurl hending with heq | hcut
      · exact .inl heq.symm
      · exact .inr (.inl hcut)
  · rintro (rfl | hcut | hcut)
    · rfl
    · exact key_of_cutEarlier hcut
    · exact (key_of_cutEarlier hcut).symm

instance (s t : Scope) : Decidable (s.ReadsLike t) := decidable_of_iff _ key_eq_key_iff

private theorem not_cutEarlier_of_unmarked (h : Unmarked s.url) : ¬ s.CutEarlier t := by
  rintro ⟨text, hurl, -⟩
  refine h ⟨t.url.toList, text.toList, ?_⟩
  rw [hurl, toList_key, List.append_assoc]
  rfl

private theorem not_cutEarlier_of_url_eq (h : s.url = t.url) : ¬ s.CutEarlier t := by
  rintro ⟨text, hurl, -⟩
  have hlength := congrArg (fun u => u.toList.length) (h.symm.trans hurl)
  have hmark : directoryMark.length = 5 := by decide +kernel
  simp only [toList_key, ending_some, List.length_append, hmark] at hlength
  omega

/-- With one address, or with addresses that do not have the mark, only the same scope reads alike. -/
theorem readsLike_iff (h : s.url = t.url ∨ (Unmarked s.url ∧ Unmarked t.url)) : s.ReadsLike t ↔ s = t := by
  refine or_iff_left (not_or.2 ?_)
  rcases h with hurl | ⟨hs, ht⟩
  · exact ⟨not_cutEarlier_of_url_eq hurl, not_cutEarlier_of_url_eq hurl.symm⟩
  · exact ⟨not_cutEarlier_of_unmarked hs, not_cutEarlier_of_unmarked ht⟩

end Scope

/-- A key tells the address and the directory. -/
theorem key_inj {url url' : String} (h : Unmarked url) (h' : Unmarked url') {directory directory' : Option String}
    (heq : StoredCache.key url directory = StoredCache.key url' directory') : url = url' ∧ directory = directory' :=
  Scope.mk.inj ((Scope.readsLike_iff (s := ⟨url, directory⟩) (t := ⟨url', directory'⟩) (.inr ⟨h, h'⟩)).1
    (Scope.key_eq_key_iff.1 heq))

/-! ### Insertions -/

/-- The cache after some insertions. -/
def insertAll (c : StoredCache) (insertions : List (Scope × Prefetched)) : StoredCache :=
  insertions.foldl (fun c i => c.insert i.1.key i.2) c

/-- The last insertion under a key counts, and without one what was there before. -/
theorem get?_insertAll (c : StoredCache) (insertions : List (Scope × Prefetched)) (key : String) :
    (c.insertAll insertions).entries.get? key =
      ((insertions.filter (·.1.key = key)).getLast?.map (·.2)).or (c.entries.get? key) := by
  induction insertions generalizing c with
  | nil => rfl
  | cons i insertions ih =>
    have hstep : (c.insert i.1.key i.2).entries.get? key = if key = i.1.key then some i.2 else c.entries.get? key :=
      Table.get?_insert ..
    rw [insertAll, List.foldl_cons, ← insertAll, ih, hstep, List.filter_cons]
    by_cases hkey : i.1.key = key
    · rw [if_pos hkey.symm, if_pos (decide_eq_true hkey), List.getLast?_cons]
      cases (insertions.filter (·.1.key = key)).getLast? <;> rfl
    · rw [if_neg (Ne.symm hkey), if_neg (by simpa using hkey)]

/-- What is found for a scope was inserted last for a scope that reads like it, if anything was.  Only the same scope
reads alike among those of one repository, and among those whose addresses do not have the mark. -/
theorem found_of_scopes_alike (c : StoredCache) (insertions : List (Scope × Prefetched)) (s : Scope)
    (revision : String) :
    (c.insertAll insertions).get? s.key revision =
        (((insertions.filter (·.1.ReadsLike s)).getLast?.map (·.2)).or (c.entries.get? s.key)).filter
          (·.revision = revision) ∧
      ∀ t : Scope, t.url = s.url ∨ (Unmarked t.url ∧ Unmarked s.url) → (t.ReadsLike s ↔ t = s) := by
  refine ⟨?_, fun t h => Scope.readsLike_iff h⟩
  have hfilter : insertions.filter (·.1.key = s.key) = insertions.filter (·.1.ReadsLike s) :=
    List.filter_congr fun i _ => decide_eq_decide.2 Scope.key_eq_key_iff
  rw [StoredCache.get?, get?_insertAll, hfilter]

/-- A repository and one of its directories, hashed for one revision: neither is found for the other. -/
theorem found_of_directory :
    let url := "https://example.com/r?ref=main"
    let whole : Scope := ⟨url, none⟩
    let directory : Scope := ⟨url, some "pkg"⟩
    let c := insertAll { path := ⟨"cache.json"⟩ } [(directory, ⟨"4f2a", "sha256-D"⟩), (whole, ⟨"4f2a", "sha256-R"⟩)]
    ¬ whole.ReadsLike directory ∧ c.get? directory.key "4f2a" = some ⟨"4f2a", "sha256-D"⟩ := by
  intro url whole directory c
  have hfound := found_of_scopes_alike { path := ⟨"cache.json"⟩ }
    [(directory, ⟨"4f2a", "sha256-D"⟩), (whole, ⟨"4f2a", "sha256-R"⟩)] directory "4f2a"
  refine ⟨fun halike => ?_, hfound.1.trans (by decide +kernel)⟩
  have heq := (hfound.2 whole (.inl rfl)).1 halike
  exact absurd heq (by decide)

/-- An address that ends like a key: the hash of this repository is found for the directory of another one. -/
theorem found_of_other_scope :
    let whole : Scope := ⟨"https://example.com/r?dir=pkg", none⟩
    let directory : Scope := ⟨"https://example.com/r", some "pkg"⟩
    whole ≠ directory ∧
      (insertAll { path := ⟨"cache.json"⟩ } [(whole, ⟨"4f2a", "sha256-R"⟩)]).get? directory.key "4f2a" =
        some ⟨"4f2a", "sha256-R"⟩ := by
  decide +kernel

end StoredCache

end RosRecipes
