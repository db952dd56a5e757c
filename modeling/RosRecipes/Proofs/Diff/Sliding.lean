import RosRecipes.Diff.Sliding

/-!
# Sliding keeps both sides

Wherever its changes slide to, a script still leads from the same list to the same list.  Either side of a script is
its elements without those of one kind of change (`Script.without`), so one argument is enough for the two.

* `without_slideUp` and `without_slideDown` are about one block,
* `before_compact` and `after_compact` about a whole script.
-/

namespace RosRecipes.Diff

variable {α : Type}

/-- The elements of a script that are not of a kind. -/
def Script.without (gone : Kind) (s : Script α) : List α := s.flatMap fun b => if b.kind = gone then [] else b.items

/-- The script that a focus is in. -/
def Focus.script (f : Focus α) : Script α := f.above.reverse ++ f.block :: f.below

namespace Script

variable {gone : Kind} {s t : Script α} {b : Block α}

theorem before_eq_without (s : Script α) : s.before = s.without .insert := rfl

theorem after_eq_without (s : Script α) : s.after = s.without .remove := rfl

@[simp] theorem without_nil : without gone ([] : Script α) = [] := rfl

@[simp] theorem without_cons : without gone (b :: s) = (if b.kind = gone then [] else b.items) ++ s.without gone := rfl

@[simp] theorem without_append : without gone (s ++ t) = s.without gone ++ t.without gone := List.flatMap_append

end Script

/-! ### One block -/

variable {gone kind : Kind} {s : List (Block α)} {b : Block α} {items : List α}

private theorem without_keepAbove (h : gone ≠ .keep) :
    Script.without gone (keepAbove items s) = items ++ Script.without gone s := by
  unfold keepAbove
  split <;> simp [h.symm]

private theorem without_keepBelow (h : gone ≠ .keep) :
    Script.without gone (keepBelow items s).reverse = Script.without gone s.reverse ++ items := by
  unfold keepBelow
  split <;> simp [h.symm]

/-- Kept elements may be left out if there are none. -/
private theorem without_cons_keep (h : gone ≠ .keep) :
    Script.without gone (if items.isEmpty then s else ⟨.keep, items⟩ :: s) = items ++ Script.without gone s := by
  cases items <;> simp [h.symm]

private theorem without_reverse_cons_keep (h : gone ≠ .keep) :
    Script.without gone (if items.isEmpty then s else ⟨.keep, items⟩ :: s).reverse =
      Script.without gone s.reverse ++ items := by
  cases items <;> simp [h.symm]

/-- A side has none of the changes of one of two kinds, so they may pass each other. -/
private theorem without_passing (hkind : kind ≠ .keep) (hb : b.kind ≠ .keep) (hne : kind ≠ b.kind) (h : gone ≠ .keep) :
    Script.without gone (⟨kind, items⟩ :: b :: s) = Script.without gone (b :: ⟨kind, items⟩ :: s) := by
  have hgone : gone = kind ∨ gone = b.kind := by
    cases kind <;> cases hb' : b.kind <;> cases gone <;> simp_all
  rcases hgone with rfl | rfl
  · simp
  · simp

/-- What slides up leaves a block at its end, and comes to stand below it. -/
private theorem without_slid_up {kept slid rest : List α} (h : gone ≠ .keep) (hitems : kept ++ slid = items)
    (hblock : rest ++ slid = b.items) :
    kept ++ Script.without gone ({ b with items := slid ++ rest } :: keepAbove slid s) =
      Script.without gone (⟨.keep, items⟩ :: b :: s) := by
  rw [Script.without_cons, Script.without_cons, Script.without_cons, without_keepAbove h, ← hitems, ← hblock]
  by_cases hgone : b.kind = gone <;> simp [hgone, h.symm]

/-- What slides down leaves a block at its start, and comes to stand above it. -/
private theorem without_slid_down {kept slid rest : List α} (h : gone ≠ .keep) (hitems : slid ++ kept = items)
    (hblock : slid ++ rest = b.items) :
    Script.without gone ((keepBelow slid s).reverse ++ [{ b with items := rest ++ slid }]) ++ kept =
      Script.without gone (s.reverse ++ [b, ⟨.keep, items⟩]) := by
  rw [Script.without_append, without_keepBelow h, Script.without_append, Script.without_cons, Script.without_cons,
    Script.without_cons, ← hitems, ← hblock]
  by_cases hgone : b.kind = gone <;> simp [hgone, h.symm]

variable [DecidableEq α]

theorem without_slideUp (above below : List (Block α)) (h : gone ≠ .keep) (hb : b.kind ≠ .keep) :
    (slideUp above b below).script.without gone = Script.without gone (above.reverse ++ b :: below) ∧
      (slideUp above b below).block.kind = b.kind := by
  fun_induction slideUp above b below with
  | case1 b below => exact ⟨rfl, rfl⟩
  | case2 b below items above n hn hempty ih =>
    rw [List.isEmpty_iff.1 hempty]
    simpa [h.symm] using ih hb
  | case3 b below items above n hn hempty => exact ⟨rfl, rfl⟩
  | case4 b below items above n kept hn slid moved ih =>
    obtain ⟨ih, hkind⟩ := ih hb
    refine ⟨ih.trans ?_, hkind⟩
    have hitems : kept ++ slid = items := List.take_append_drop _ _
    have hblock : b.items.take (b.items.length - n) ++ slid = b.items := by
      change b.items.take (b.items.length - sharedEnd b.items items) ++ items.drop (items.length - n) = b.items
      rw [← drop_sharedEnd, List.take_append_drop]
    rw [Script.without_append, dite_eq_ite, without_reverse_cons_keep h, List.append_assoc,
      without_slid_up h hitems hblock]
    simp
  | case5 b below items above hkeep ih =>
    obtain ⟨ih, hkind⟩ := ih hb
    refine ⟨ih.trans ?_, hkind⟩
    by_cases hgone : b.kind = gone <;> simp [hgone]
  | case6 b below kind items above hkeep hkind ih =>
    obtain ⟨ih, hkind'⟩ := ih hb
    refine ⟨ih.trans ?_, hkind'⟩
    rw [Script.without_append, ← without_passing hkeep hb hkind h]
    simp

theorem without_slideDown (above below : List (Block α)) (h : gone ≠ .keep) (hb : b.kind ≠ .keep) :
    (slideDown above b below).script.without gone = Script.without gone (above.reverse ++ b :: below) ∧
      (slideDown above b below).block.kind = b.kind := by
  fun_induction slideDown above b below with
  | case1 above b => exact ⟨rfl, rfl⟩
  | case2 above b items below n hn hempty ih =>
    rw [List.isEmpty_iff.1 hempty]
    simpa [h.symm] using ih hb
  | case3 above b items below n hn hempty => exact ⟨rfl, rfl⟩
  | case4 above b items below n kept hn slid moved ih =>
    obtain ⟨ih, hkind⟩ := ih hb
    refine ⟨ih.trans ?_, hkind⟩
    have hitems : slid ++ kept = items := List.take_append_drop _ _
    have hblock : slid ++ b.items.drop n = b.items := by
      change items.take (sharedStart b.items items) ++ b.items.drop (sharedStart b.items items) = b.items
      rw [← take_sharedStart, List.take_append_drop]
    have hslid := without_slid_down (s := above) h hitems hblock
    rw [List.append_cons, Script.without_append, dite_eq_ite, without_cons_keep h, ← List.append_assoc, hslid]
    simp
  | case5 above b items below hkeep ih =>
    obtain ⟨ih, hkind⟩ := ih hb
    refine ⟨ih.trans ?_, hkind⟩
    by_cases hgone : b.kind = gone <;> simp [hgone]
  | case6 above b kind items below hkeep hkind ih =>
    obtain ⟨ih, hkind'⟩ := ih hb
    refine ⟨ih.trans ?_, hkind'⟩
    rw [List.reverse_cons, List.append_assoc, Script.without_append, List.singleton_append,
      without_passing hkeep hb hkind h, Script.without_append]

theorem without_slide (above below : List (Block α)) (h : gone ≠ .keep) (hb : b.kind ≠ .keep) :
    (slide above b below).script.without gone = Script.without gone (above.reverse ++ b :: below) := by
  obtain ⟨hup, hkind⟩ := without_slideUp above below h hb
  exact (without_slideDown _ _ h (hkind ▸ hb)).1.trans hup

/-! ### Whole scripts -/

theorem without_slideAll (h : gone ≠ .keep) (hkind : kind ≠ .keep) (above below : List (Block α)) (fuel : Nat) :
    (slideAll kind above below fuel).without gone = Script.without gone (above.reverse ++ below) := by
  fun_induction slideAll kind above below fuel with
  | case1 above below => rfl
  | case2 above fuel => rw [List.append_nil]
  | case3 above fuel b below hb f ih =>
    have hslide := without_slide above below h (hb ▸ hkind)
    rw [ih, ← hslide, List.reverse_cons, List.append_assoc]
    rfl
  | case4 above fuel b below hb ih =>
    rw [ih, List.reverse_cons, List.append_assoc]
    rfl

theorem without_compact (h : gone ≠ .keep) (s : Script α) : (compact s).without gone = s.without gone := by
  have hinsert : Kind.insert ≠ .keep := nofun
  have hremove : Kind.remove ≠ .keep := nofun
  rw [compact, without_slideAll h hinsert, List.reverse_nil, List.nil_append, without_slideAll h hremove]
  rfl

theorem before_compact (s : Script α) : (compact s).before = s.before := by
  have hinsert : Kind.insert ≠ .keep := nofun
  rw [Script.before_eq_without, Script.before_eq_without, without_compact hinsert]

theorem after_compact (s : Script α) : (compact s).after = s.after := by
  have hremove : Kind.remove ≠ .keep := nofun
  rw [Script.after_eq_without, Script.after_eq_without, without_compact hremove]

end RosRecipes.Diff
