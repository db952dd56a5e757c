import RosRecipes.Diff.Script

/-!
# Shortest scripts

A shortest script between two lists is found by halves.  Paths through the grid of all pairs of places are
searched from both corners at once, one edit longer each time, and where the two searches meet a shortest path
passes.  For each difference `x - y` of places only the farthest place reached is kept.

* `shortest` gives a script; whatever the search finds, the script leads from the one list to the other
  (`shortest_connects`).
-/

namespace RosRecipes.Diff

variable {α : Type} [DecidableEq α]

/-- The farthest places of a search, by the difference of the two places. -/
structure Frontier where
  reach : Array Nat
  offset : Nat

namespace Frontier

/-- A frontier for up to `size` edits. -/
def empty (size : Nat) : Frontier := ⟨Array.replicate (2 * size + 1) 0, size⟩

def get (f : Frontier) (k : Int) : Nat := f.reach.getD (k + f.offset).toNat 0

def set (f : Frontier) (k : Int) (x : Nat) : Frontier :=
  { f with reach := f.reach.setIfInBounds (k + f.offset).toNat x }

/-- Where a path with `d` edits starts on a difference: one edit after the farther of its neighbours. -/
def start (f : Frontier) (d k : Int) : Nat :=
  if k = -d ∨ (k ≠ d ∧ f.get (k - 1) < f.get (k + 1)) then f.get (k + 1) else f.get (k - 1) + 1

end Frontier

/-- The number of equal elements from two places on. -/
def equalRun (old new : Array α) (x y : Nat) : Nat :=
  if h : x < old.size ∧ y < new.size then
    if old[x] = new[y] then equalRun old new (x + 1) (y + 1) + 1 else 0
  else 0
termination_by old.size - x

/-- A run of equal elements at which two searches meet, by its first and its last place. -/
structure Meeting where
  first : Nat × Nat
  last : Nat × Nat

/-- The differences that a path with `d` edits can end on, from the greatest to the least. -/
def differences (d : Nat) : List Int := (List.range (d + 1)).map fun (i : Nat) => (d : Int) - 2 * (i : Int)

/-- Takes a search one edit further, on all given differences.  It meets the search from the other corner where
that has been on the same difference with up to `known` edits. -/
def advance (old new : Array α) (d known : Int) (opposite : Frontier) (f : Frontier) :
    List Int → Frontier × Option Meeting
  | [] => (f, none)
  | k :: ks =>
    let x := f.start d k
    let y := (x - k).toNat
    let run := equalRun old new x y
    let f := f.set k (x + run)
    let across := old.size - new.size - k
    if across.natAbs ≤ known ∧ old.size ≤ x + run + opposite.get across then
      (f, some ⟨(x, y), (x + run, y + run)⟩)
    else advance old new d known opposite f ks

/-- Searches from both corners with `d` edits and more. -/
def meet (old new oldReversed newReversed : Array α) (d : Nat) (forward backward : Frontier) :
    (fuel : Nat) → Option (Nat × Nat)
  | 0 => none
  | fuel + 1 =>
    let odd := (old.size + new.size) % 2 = 1
    match advance old new d (if odd then d - 1 else -1) backward forward (differences d) with
    | (_, some m) => some m.first
    | (forward, none) =>
      match advance oldReversed newReversed d (if odd then -1 else d) forward backward (differences d) with
      | (_, some m) => some (old.size - m.last.1, new.size - m.last.2)
      | (backward, none) => meet old new oldReversed newReversed (d + 1) forward backward fuel

/-- A pair of places on a shortest path. -/
def middle? (old new : List α) : Option (Nat × Nat) :=
  let edits := (old.length + new.length + 1) / 2 + 1
  let f := Frontier.empty edits
  meet old.toArray new.toArray old.reverse.toArray new.reverse.toArray 0 f f edits

/-- Two lists without what they have in common at both ends. -/
structure Core (α : Type) where
  start : List α
  removed : List α
  inserted : List α
  tail : List α

/-- Takes off what two lists have in common, first at the start, then at the end. -/
def Core.of (old new : List α) : Core α :=
  let n := sharedStart old new
  let m := sharedEnd (old.drop n) (new.drop n)
  { start := old.take n
    removed := (old.drop n).take ((old.drop n).length - m)
    inserted := (new.drop n).take ((new.drop n).length - m)
    tail := (old.drop n).drop ((old.drop n).length - m) }

theorem Core.eq_old (old new : List α) :
    (Core.of old new).start ++ ((Core.of old new).removed ++ (Core.of old new).tail) = old := by
  simp only [Core.of, List.take_append_drop]

theorem Core.eq_new (old new : List α) :
    (Core.of old new).start ++ ((Core.of old new).inserted ++ (Core.of old new).tail) = new := by
  simp only [Core.of]
  rw [drop_sharedEnd, List.take_append_drop, take_sharedStart, List.take_append_drop]

theorem Core.length_removed_le (old new : List α) : (Core.of old new).removed.length ≤ old.length := by
  have h := congrArg List.length (Core.eq_old old new)
  simp only [List.length_append] at h
  omega

theorem Core.length_inserted_le (old new : List α) : (Core.of old new).inserted.length ≤ new.length := by
  have h := congrArg List.length (Core.eq_new old new)
  simp only [List.length_append] at h
  omega

/-- Does a pair of places in two lists leave something on both sides? -/
def Divides (removed inserted : List α) (p : Nat × Nat) : Prop :=
  p.1 ≤ removed.length ∧ p.2 ≤ inserted.length ∧ 0 < p.1 + p.2 ∧ p.1 + p.2 < removed.length + inserted.length

instance (removed inserted : List α) (p : Nat × Nat) : Decidable (Divides removed inserted p) :=
  inferInstanceAs (Decidable (_ ∧ _))

/-- A script from one list to another. -/
def shortest (old new : List α) : Script α :=
  let c := Core.of old new
  let whole := Script.block .remove c.removed ++ Script.block .insert c.inserted
  let between :=
    if c.removed.isEmpty || c.inserted.isEmpty then whole
    else
      match middle? c.removed c.inserted with
      | some (x, y) =>
        if _h : Divides c.removed c.inserted (x, y) then
          shortest (c.removed.take x) (c.inserted.take y) ++ shortest (c.removed.drop x) (c.inserted.drop y)
        else whole
      | none => whole
  Script.block .keep c.start ++ (between ++ Script.block .keep c.tail)
termination_by old.length + new.length
decreasing_by
  all_goals
    have hr := Core.length_removed_le old new
    have hi := Core.length_inserted_le old new
    simp only [Divides, c] at _h
    simp only [List.length_take, List.length_drop]
    omega

/-- A script from one list to another connects them, whatever the search finds. -/
theorem shortest_connects (old new : List α) :
    Script.before (shortest old new) = old ∧ Script.after (shortest old new) = new := by
  fun_induction shortest old new with
  | case1 old new c whole between ih₁ ih₂ =>
    have hb : Script.before between = c.removed ∧ Script.after between = c.inserted := by
      have hw : Script.before whole = c.removed ∧ Script.after whole = c.inserted := by
        simp [whole, Script.before_block, Script.after_block]
      simp only [between]
      split
      · exact hw
      · split
        · next x y _ =>
          split
          · next h => 
            have h₁ := ih₂ x y h
            have h₂ := ih₁ x y h
            simp [h₁, h₂]
          · exact hw
        · exact hw
    constructor
    · simpa [Script.before_block, hb.1] using Core.eq_old old new
    · simpa [Script.after_block, hb.2] using Core.eq_new old new

end RosRecipes.Diff
