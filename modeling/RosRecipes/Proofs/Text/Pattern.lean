import Mathlib.Data.List.Basic
import RosRecipes.Text.Search

/-!
# Patterns

A pattern is tried at the start of a text.  There may be many ways to match; `Pattern.ways` lists them in the order of
preference, so the first one is what a search with backtracking finds (`Pattern.match?`).

* The way that a sequence takes through its beginning is the first one after which the rest can be matched
  (`findSome?_seq`).
* Where the character after a run has to be of another kind, the run is the longest one (`findSome?_greedy`).
-/

namespace RosRecipes.Text

variable {α : Type} {kind : Char → Bool}

/-- The ways to cut off a run of characters of a kind from the start, the shortest one first. -/
def runs (kind : Char → Bool) : List Char → List (List Char × List Char)
  | [] => [([], [])]
  | c :: s => ([], c :: s) :: if kind c then (runs kind s).map fun (run, rest) => (c :: run, rest) else []

/-- The empty run is tried first, then those that start with a character of the kind. -/
theorem findSome?_runs_cons {c : Char} (hc : kind c) (s : List Char) (k : List Char × List Char → Option α) :
    (runs kind (c :: s)).findSome? k =
      (k ([], c :: s)).or ((runs kind s).findSome? fun (run, rest) => k (c :: run, rest)) := by
  rw [runs, if_pos hc, List.findSome?_cons, List.findSome?_map]
  cases k ([], c :: s) with
  | none => rfl
  | some found => rfl

/-- If no run is of use that can be continued, only the longest one is. -/
theorem findSome?_runs_reverse (s : List Char) {k : List Char × List Char → Option α}
    (h : ∀ run c rest, kind c → k (run, c :: rest) = none) :
    (runs kind s).reverse.findSome? k = k (s.takeWhile kind, s.dropWhile kind) := by
  induction s generalizing k with
  | nil => simp [runs]
  | cons c s ih =>
    rw [runs, List.reverse_cons, List.findSome?_append, List.findSome?_singleton]
    by_cases hc : kind c
    · rw [if_pos hc, ← List.map_reverse, List.findSome?_map, ih, List.takeWhile_cons_of_pos hc,
        List.dropWhile_cons_of_pos hc, h [] c s hc, Option.or_none]
      · rfl
      · exact fun run d rest hd => h (c :: run) d rest hd
    · rw [if_neg hc, List.takeWhile_cons_of_neg hc, List.dropWhile_cons_of_neg hc]
      rfl

inductive Pattern where
  | text (s : List Char)
  /-- Any number of characters of a kind, rather few. -/
  | lazy (kind : Char → Bool)
  /-- Any number of characters of a kind, rather many. -/
  | greedy (kind : Char → Bool)
  | seq (first second : Pattern)
  /-- One of two, rather the first. -/
  | either (first second : Pattern)
  /-- At most once, rather once. -/
  | optional (p : Pattern)
  /-- A part that is looked up by its name afterwards. -/
  | group (name : String) (p : Pattern)
  /-- The end of the text. -/
  | finish

/-- A way to match the start of a text. -/
structure Match where
  taken : List Char
  groups : List (String × List Char) := []
  rest : List Char

namespace Match

/-- One match after another. -/
def append (m n : Match) : Match := ⟨m.taken ++ n.taken, m.groups ++ n.groups, n.rest⟩

def named (name : String) (m : Match) : Match := { m with groups := (name, m.taken) :: m.groups }

/-- The text of a group; it is empty if the group took no part. -/
def group (m : Match) (name : String) : List Char := (m.groups.lookup name).getD []

end Match

namespace Pattern

variable {p q : Pattern} {s t : List Char} {k : Match → Option α}

/-- The ways to match the start of a text, the preferred ones first. -/
def ways : Pattern → List Char → List Match
  | text t, s => (dropStart? t s).toList.map fun rest => { taken := t, rest }
  | lazy kind, s => (runs kind s).map fun (taken, rest) => { taken, rest }
  | greedy kind, s => (runs kind s).reverse.map fun (taken, rest) => { taken, rest }
  | seq p q, s => (p.ways s).flatMap fun m => (q.ways m.rest).map m.append
  | either p q, s => p.ways s ++ q.ways s
  | optional p, s => p.ways s ++ [{ taken := [], rest := s }]
  | group name p, s => (p.ways s).map (Match.named name)
  | finish, s => if s.isEmpty then [{ taken := [], rest := [] }] else []

/-- The preferred match. -/
def match? (p : Pattern) (s : List Char) : Option Match := (p.ways s).head?

/-! ### The first way that is of use -/

theorem match?_map (p : Pattern) (s : List Char) (f : Match → α) :
    (p.match? s).map f = (p.ways s).findSome? fun m => some (f m) := by
  unfold match?
  cases p.ways s <;> rfl

theorem findSome?_text : ((text t).ways s).findSome? k = (dropStart? t s).bind fun rest => k { taken := t, rest } := by
  rw [ways]
  cases dropStart? t s with
  | none => rfl
  | some rest => exact List.findSome?_singleton

/-- The rest decides between the ways through the beginning. -/
theorem findSome?_seq :
    ((seq p q).ways s).findSome? k =
      (p.ways s).findSome? fun m => (q.ways m.rest).findSome? fun n => k (m.append n) := by
  rw [ways]
  induction p.ways s with
  | nil => rfl
  | cons m ms ih =>
    rw [List.flatMap_cons, List.findSome?_append, List.findSome?_map, ih, List.findSome?_cons]
    show ((q.ways m.rest).findSome? fun n => k (m.append n)).or _ = _
    cases (q.ways m.rest).findSome? fun n => k (m.append n) <;> rfl

theorem findSome?_group (name : String) :
    ((group name p).ways s).findSome? k = (p.ways s).findSome? fun m => k (m.named name) := by
  rw [ways, List.findSome?_map]
  rfl

theorem findSome?_either :
    ((either p q).ways s).findSome? k = ((p.ways s).findSome? k).or ((q.ways s).findSome? k) := by
  rw [ways, List.findSome?_append]

theorem findSome?_optional :
    ((optional p).ways s).findSome? k = ((p.ways s).findSome? k).or (k { taken := [], rest := s }) := by
  rw [ways, List.findSome?_append, List.findSome?_singleton]

theorem findSome?_finish : (finish.ways s).findSome? k = if s.isEmpty then k { taken := [], rest := [] } else none := by
  rw [ways]
  split
  · exact List.findSome?_singleton
  · rfl

theorem findSome?_lazy :
    ((lazy kind).ways s).findSome? k = (runs kind s).findSome? fun (taken, rest) => k { taken, rest } := by
  rw [ways, List.findSome?_map]
  rfl

/-- If no way is of use after which the run can be continued, the run is the longest one. -/
theorem findSome?_greedy (h : ∀ taken c rest, kind c → k { taken, rest := c :: rest } = none) :
    ((greedy kind).ways s).findSome? k = k { taken := s.takeWhile kind, rest := s.dropWhile kind } := by
  rw [ways, List.findSome?_map]
  exact findSome?_runs_reverse s fun run c rest hc => h run c rest hc

end Pattern

end RosRecipes.Text
