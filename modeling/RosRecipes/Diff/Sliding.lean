import RosRecipes.Diff.Script

/-!
# Sliding changes together

A removal or an insertion can slide over kept elements if it begins or ends with the same ones.  Each one slides
up as far as it goes, then down as far as it goes, and joins those of its kind that it meets; it passes those of
the other kind.  So changes that belong together come together.

* `compact` does this for all removals, then for all insertions.
-/

namespace RosRecipes.Diff

variable {α : Type} [DecidableEq α]

/-- A script that is looked at in one block: the blocks above it, the nearest first, and those below it. -/
structure Focus (α : Type) where
  above : List (Block α)
  block : Block α
  below : List (Block α)

/-- The number of elements in some blocks, and of the blocks. -/
def weight (s : List (Block α)) : Nat := s.foldr (fun b n => b.items.length + 1 + n) 0

/-- Puts kept elements above the blocks. -/
def keepAbove (items : List α) : List (Block α) → List (Block α)
  | ⟨.keep, next⟩ :: s => ⟨.keep, items ++ next⟩ :: s
  | s => ⟨.keep, items⟩ :: s

/-- Puts kept elements below the blocks, of which the last one comes first. -/
def keepBelow (items : List α) : List (Block α) → List (Block α)
  | ⟨.keep, last⟩ :: s => ⟨.keep, last ++ items⟩ :: s
  | s => ⟨.keep, items⟩ :: s

/-- Slides a block up. -/
def slideUp (above : List (Block α)) (b : Block α) (below : List (Block α)) : Focus α :=
  match above with
  | [] => ⟨[], b, below⟩
  | ⟨kind, items⟩ :: above =>
    if kind = .keep then
      let n := sharedEnd b.items items
      let kept := items.take (items.length - n)
      if _h : n = 0 then
        if items.isEmpty then slideUp above b below else ⟨⟨kind, items⟩ :: above, b, below⟩
      else
        let slid := items.drop (items.length - n)
        let moved := { b with items := slid ++ b.items.take (b.items.length - n) }
        slideUp (if kept.isEmpty then above else ⟨.keep, kept⟩ :: above) moved (keepAbove slid below)
    else if kind = b.kind then slideUp above { b with items := items ++ b.items } below
    else slideUp above b (⟨kind, items⟩ :: below)
termination_by weight above
decreasing_by
  · simp [weight]
  · have hn := sharedEnd_le_right b.items items
    split
    · simp [weight]
    · simp [weight]; omega
  · simp [weight]
  · simp [weight]

/-- Slides a block down. -/
def slideDown (above : List (Block α)) (b : Block α) (below : List (Block α)) : Focus α :=
  match below with
  | [] => ⟨above, b, []⟩
  | ⟨kind, items⟩ :: below =>
    if kind = .keep then
      let n := sharedStart b.items items
      let kept := items.drop n
      if _h : n = 0 then
        if items.isEmpty then slideDown above b below else ⟨above, b, ⟨kind, items⟩ :: below⟩
      else
        let slid := items.take n
        let moved := { b with items := b.items.drop n ++ slid }
        slideDown (keepBelow slid above) moved (if kept.isEmpty then below else ⟨.keep, kept⟩ :: below)
    else if kind = b.kind then slideDown above { b with items := b.items ++ items } below
    else slideDown (⟨kind, items⟩ :: above) b below
termination_by weight below
decreasing_by
  · simp [weight]
  · have hn := sharedStart_le_right b.items items
    split
    · simp [weight]
    · simp [weight]; omega
  · simp [weight]
  · simp [weight]

/-- Slides a block up, then down. -/
def slide (above : List (Block α)) (b : Block α) (below : List (Block α)) : Focus α :=
  let f := slideUp above b below
  slideDown f.above f.block f.below

/-- Slides all blocks of a kind, from the first to the last; the blocks in `above` have had their turn. -/
def slideAll (kind : Kind) (above below : List (Block α)) : (fuel : Nat) → Script α
  | 0 => above.reverse ++ below
  | fuel + 1 =>
    match below with
    | [] => above.reverse
    | b :: below =>
      if b.kind = kind then
        let f := slide above b below
        slideAll kind (f.block :: f.above) f.below fuel
      else slideAll kind (b :: above) below fuel

/-- Slides all removals, then all insertions. -/
def compact (s : Script α) : Script α :=
  let fuel := (weight s + 1) * (weight s + 1)
  slideAll .insert [] (slideAll .remove [] s fuel) fuel

end RosRecipes.Diff
