import RosRecipes.Diff.Unified
import RosRecipes.Proofs.Diff.Sliding

/-!
# Applying hunks

A hunk is applied where it says: the lines before it stay, those that it shares or removes have to be there, and those
that it shares or inserts come in their place (`follow?`).

* `Script.before_changes` and `Script.after_changes`: the changes of a script hold all of it.
* `follow_hunksFrom`: hunks lead from the one side of the changes to the other, though what is kept between two of them
  is only shown in part.
* `follow_hunks`: the hunks between two lists of lines lead from the one to the other.
-/

namespace RosRecipes.Diff

variable {α : Type} {gone : Kind}

/-! ### Changes -/

/-- What stands on a side between the change before it and the next one. -/
def Change.without (gone : Kind) (c : Change α) : List α :=
  c.gap ++ ((if gone = .remove then [] else c.removed) ++ if gone = .insert then [] else c.inserted)

/-- The side of some changes, and of what is kept after them. -/
def sideOf (gone : Kind) (cs : List (Change α)) (tail : List α) : List α := cs.flatMap (·.without gone) ++ tail

/-- What has been kept since the last change belongs to the next one, so there is none while a change is begun. -/
private theorem without_getD {gap : List α} {c : Option (Change α)} (h : c = none ∨ gap = []) :
    (c.getD ⟨gap, [], []⟩).without gone = sideOf gone c.toList gap := by
  rcases h with rfl | rfl
  · simp [Change.without, sideOf]
  · cases c <;> simp [Change.without, sideOf]

private theorem without_remove (h : gone ≠ .keep) (c : Change α) (items : List α) :
    { c with removed := c.removed ++ items }.without gone =
      c.without gone ++ if .remove = gone then [] else items := by
  cases gone with
  | keep => exact absurd rfl h
  | insert => simp [Change.without]
  | remove => simp [Change.without]

private theorem without_insert (h : gone ≠ .keep) (c : Change α) (items : List α) :
    { c with inserted := c.inserted ++ items }.without gone =
      c.without gone ++ if .insert = gone then [] else items := by
  cases gone with
  | keep => exact absurd rfl h
  | insert => simp [Change.without]
  | remove => simp [Change.without]

private theorem without_changesFrom (hgone : gone ≠ .keep) {gap : List α} {c : Option (Change α)}
    (h : c = none ∨ gap = []) (s : Script α) :
    sideOf gone (Script.changesFrom gap c s).1 (Script.changesFrom gap c s).2 =
      sideOf gone c.toList (gap ++ s.without gone) := by
  induction s generalizing gap c with
  | nil => simp [Script.changesFrom]
  | cons b s ih =>
    obtain ⟨kind, items⟩ := b
    -- A change that is begun goes on, or is begun here.
    have hchange : ∀ c' : Change α,
        c'.without gone = (c.getD ⟨gap, [], []⟩).without gone ++ (if kind = gone then [] else items) →
        sideOf gone (Script.changesFrom [] (some c') s).1 (Script.changesFrom [] (some c') s).2 =
          sideOf gone c.toList (gap ++ Script.without gone (⟨kind, items⟩ :: s)) := by
      intro c' hc'
      rw [ih (.inr rfl), Script.without_cons]
      rw [without_getD h] at hc'
      simp [sideOf, hc']
    cases kind with
    | remove => exact hchange _ (without_remove hgone _ items)
    | insert => exact hchange _ (without_insert hgone _ items)
    | keep =>
      have hrest := @ih (gap ++ items) none (.inl rfl)
      simp only [sideOf, Script.changesFrom, List.flatMap_append, List.append_assoc, Script.without_cons,
        hgone.symm, if_false, Option.toList_none, List.flatMap_nil, List.nil_append] at hrest ⊢
      rw [hrest]

private theorem without_changes (hgone : gone ≠ .keep) (s : Script α) :
    sideOf gone s.changes.1 s.changes.2 = s.without gone := by
  rw [Script.changes, without_changesFrom hgone (.inl rfl)]
  simp [sideOf]

/-- The changes of a script and what is kept after them hold the list that it starts from. -/
theorem Script.before_changes (s : Script α) : sideOf .insert s.changes.1 s.changes.2 = s.before :=
  without_changes (by simp) s

/-- The changes of a script and what is kept after them hold the list that it leads to. -/
theorem Script.after_changes (s : Script α) : sideOf .remove s.changes.1 s.changes.2 = s.after :=
  without_changes (by simp) s

/-! ### Hunks -/

/-- The lines that are not of a kind. -/
def without (gone : Kind) (ls : List (Kind × Line)) : List Line := (ls.filter fun (k, _) => k ≠ gone).map (·.2)

theorem without_append (ls ms : List (Kind × Line)) : without gone (ls ++ ms) = without gone ls ++ without gone ms := by
  simp [without]

theorem without_ofKind (kind : Kind) (ls : List Line) :
    without gone (ofKind kind ls) = if kind = gone then [] else ls := by
  by_cases h : kind = gone <;> simp [without, ofKind, h, List.filter_map, Function.comp_def]

/-- Every line is on one of the sides. -/
theorem mem_without {ls : List (Kind × Line)} {x : Kind × Line} (hx : x ∈ ls) :
    x.2 ∈ without .insert ls ∨ x.2 ∈ without .remove ls := by
  by_cases hinsert : x.1 = .insert
  · exact .inr (List.mem_map_of_mem (List.mem_filter.2 ⟨hx, by simp [hinsert]⟩))
  · exact .inl (List.mem_map_of_mem (List.mem_filter.2 ⟨hx, by simp [hinsert]⟩))

theorem length_without (gone : Kind) (ls : List (Kind × Line)) :
    (without gone ls).length = (ls.filter fun (k, _) => k ≠ gone).length :=
  List.length_map _

/-- Applies hunks to the rest of a text, of which some lines have been passed and others made. -/
def follow? (passed made : Nat) (old : List Line) : List Hunk → Option (List Line)
  | [] => some old
  | h :: hs =>
    let skipped := h.oldStart - passed
    let before := without .insert h.lines
    let after := without .remove h.lines
    if passed ≤ h.oldStart ∧ h.newStart = made + skipped ∧ skipped ≤ old.length ∧ before <+: old.drop skipped then
      (follow? (h.oldStart + before.length) (h.newStart + after.length) (old.drop (skipped + before.length)) hs).map
        (old.take skipped ++ after ++ ·)
    else none

variable {tail : List Line} {cs : List (Change Line)}

theorem sameHunk_append (tail : List Line) (cs : List (Change Line)) :
    (sameHunk tail cs).1 ++ (sameHunk tail cs).2 = cs := by
  induction cs with
  | nil => rfl
  | cons c cs ih =>
    unfold sameHunk
    split
    · simp [ih]
    · rfl

/-- The change after a hunk is far from it. -/
theorem le_gap_of_sameHunk (c : Change Line) (h : (sameHunk tail cs).2.head? = some c) :
    2 * context ≤ c.gap.length := by
  induction cs with
  | nil => cases h
  | cons c' cs ih =>
    unfold sameHunk at h
    split at h
    · exact ih h
    · next hjoins =>
      cases h
      simp only [joins, Bool.or_eq_true, decide_eq_true_eq, not_or] at hjoins
      exact Nat.le_of_not_lt hjoins.1

/-- What is shown of the lines after a hunk comes first among them. -/
private theorem take_after (gone : Kind) (later : List (Change Line)) (tail : List Line) :
    ((later.head?.map (·.gap)).getD tail).take context ++
      (sideOf gone later tail).drop (((later.head?.map (·.gap)).getD tail).take context).length =
        sideOf gone later tail := by
  have hprefix : ((later.head?.map (·.gap)).getD tail).take context <+: sideOf gone later tail := by
    refine (List.take_prefix _ _).trans ?_
    cases later with
    | nil => exact List.prefix_refl _
    | cons c later => simp [sideOf, Change.without]
  exact List.prefix_iff_eq_append.1 hprefix

/-- The side of the changes that share a hunk, and of those after it. -/
private theorem sideOf_cons (hgone : gone ≠ .keep) (c : Change Line)
    (cs : List (Change Line)) (tail : List Line) :
    sideOf gone (c :: cs) tail =
      c.gap ++ (without gone (c.lines ++ (sameHunk tail cs).1.flatMap fun c => ofKind .keep c.gap ++ c.lines) ++
        sideOf gone (sameHunk tail cs).2 tail) := by
  have hlines : ∀ c : Change Line, without gone c.lines =
      (if gone = .remove then [] else c.removed) ++ if gone = .insert then [] else c.inserted := by
    intro c
    rw [Change.lines, without_append, without_ofKind, without_ofKind]
    simp only [eq_comm]
  have hsame : ∀ cs : List (Change Line), without gone (cs.flatMap fun c => ofKind .keep c.gap ++ c.lines) =
      cs.flatMap (·.without gone) := by
    intro cs
    induction cs with
    | nil => rfl
    | cons c cs ih =>
      rw [List.flatMap_cons, without_append, without_append, without_ofKind, if_neg hgone.symm, hlines, ih]
      rfl
  conv => lhs; rw [← sameHunk_append tail cs]
  simp [sideOf, without_append, hsame, hlines, Change.without]

/-- A hunk is applied after the lines before it. -/
private theorem follow_cons (passed made : Nat) (kept : List Line) (shown : List (Kind × Line)) (rest : List Line)
    (hs : List Hunk) :
    follow? passed made (kept ++ (without .insert shown ++ rest))
      (⟨passed + kept.length, made + kept.length, shown⟩ :: hs) =
        (follow? (passed + kept.length + (without .insert shown).length)
          (made + kept.length + (without .remove shown).length) rest hs).map (kept ++ without .remove shown ++ ·) := by
  rw [follow?]
  simp

/-- A gap of which some lines have been shown: those before the next hunk, and those that it shows. -/
private theorem drop_eq_append {k n : Nat} (h : k ≤ n) (ls : List α) :
    ls.drop k = (ls.drop k).take (n - k) ++ ls.drop n := by
  have hdrop : ls.drop n = (ls.drop k).drop (n - k) := by
    rw [List.drop_drop, Nat.add_sub_cancel' h]
  rw [hdrop, List.take_append_drop]

theorem follow_hunksFrom (passed made : Nat) (tail : List Line) (cs : List (Change Line)) (k : Nat)
    (hk : ∀ c ∈ cs.head?, k ≤ c.gap.length - context) :
    follow? (passed + k) (made + k) ((sideOf .insert cs tail).drop k) (hunksFrom passed made tail cs) =
      some ((sideOf .remove cs tail).drop k) := by
  -- After a hunk some lines more have been passed than its changes take, which are those shown after them.
  fun_induction hunksFrom passed made tail cs generalizing k with
  | case1 passed made => rfl
  | case2 passed made c cs same later skipped body after hunk count ih =>
    have hk : k ≤ skipped := hk c rfl
    have hskipped : skipped = c.gap.length - context := rfl
    obtain ⟨kept, hkept⟩ : ∃ kept, kept = (c.gap.drop k).take (skipped - k) := ⟨_, rfl⟩
    have hlength : kept.length = skipped - k := by
      rw [hkept, List.length_take, List.length_drop]
      omega
    have hgap : c.gap.drop k = kept ++ c.gap.drop skipped := by
      rw [hkept]
      exact drop_eq_append hk c.gap
    have hlines : ∀ {gone}, gone ≠ .keep →
        without gone hunk.lines = c.gap.drop skipped ++ without gone body ++ after.take context := by
      intro gone hgone
      rw [without_append, without_append, without_ofKind, without_ofKind, if_neg hgone.symm, if_neg hgone.symm]
    have hside : ∀ gone, gone ≠ .keep → (sideOf gone (c :: cs) tail).drop k =
        kept ++ (without gone hunk.lines ++ (sideOf gone later tail).drop (after.take context).length) := by
      intro gone hgone
      have hk' : k ≤ c.gap.length := by omega
      rw [sideOf_cons hgone, List.drop_append_of_le_length hk', hgap, hlines hgone]
      simp only [List.append_assoc]
      rw [take_after]
    have hnext : ∀ gone start, gone ≠ .keep → start + k + kept.length + (without gone hunk.lines).length =
        start + (c.gap.length + (without gone body).length) + (after.take context).length := by
      intro gone start hgone
      rw [hlines hgone, List.length_append, List.length_append, List.length_drop]
      omega
    have hfar : ∀ c' ∈ later.head?, (after.take context).length ≤ c'.gap.length - context := by
      intro c' hc'
      have hgap' := le_gap_of_sameHunk c' hc'
      have htake := List.length_take_le context after
      omega
    have hstart : ∀ start, start + skipped = start + k + kept.length := by
      intro start
      omega
    have hrest := ih _ hfar
    rw [show hunk = ⟨passed + k + kept.length, made + k + kept.length, hunk.lines⟩ by rw [← hstart, ← hstart],
      hside .insert (by simp), follow_cons, hnext .insert passed (by simp), hnext .remove made (by simp),
      length_without, length_without, hrest, hside .remove (by simp), Option.map_some, List.append_assoc]

/-- The hunks between two lists of lines lead from the one to the other. -/
theorem follow_hunks (old new : List Line) : follow? 0 0 old (hunks old new) = some new := by
  have hpatch := follow_hunksFrom 0 0 (compact (shortest old new)).changes.2 (compact (shortest old new)).changes.1 0
    fun _ _ => Nat.zero_le _
  rw [Script.before_changes, Script.after_changes, before_compact, after_compact, (shortest_connects old new).1,
    (shortest_connects old new).2] at hpatch
  exact hpatch

/-- Lists that differ have a hunk. -/
theorem hunks_ne_nil {old new : List Line} (h : old ≠ new) : hunks old new ≠ [] := by
  intro hnil
  have hpatch := follow_hunks old new
  rw [hnil] at hpatch
  exact h (Option.some.inj hpatch)

/-! ### What is shown -/

variable {passed made : Nat} {old new : List Line} {h : Hunk} {hs : List Hunk}

/-- What there is before a hunk and after it, where it is applied. -/
theorem follow_cons_eq_some_iff :
    follow? passed made old (h :: hs) = some new ↔
      ∃ kept rest new', old = kept ++ (without .insert h.lines ++ rest) ∧ h.oldStart = passed + kept.length ∧
        h.newStart = made + kept.length ∧
        follow? (h.oldStart + (without .insert h.lines).length) (h.newStart + (without .remove h.lines).length) rest
          hs = some new' ∧
        new = kept ++ (without .remove h.lines ++ new') := by
  obtain ⟨oldStart, newStart, shown⟩ := h
  constructor
  · intro hpatch
    rw [follow?] at hpatch
    dsimp only at hpatch ⊢
    split at hpatch
    · next hfits =>
      obtain ⟨hpassed, hmade, hlength, hbefore⟩ := hfits
      obtain ⟨new', hrest, rfl⟩ := Option.map_eq_some_iff.1 hpatch
      have hkept : (old.take (oldStart - passed)).length = oldStart - passed := List.length_take_of_le hlength
      have happend := List.prefix_iff_eq_append.1 hbefore
      refine ⟨old.take (oldStart - passed), old.drop (oldStart - passed + (without .insert shown).length), new', ?_,
        ?_, ?_, hrest, List.append_assoc _ _ _⟩
      · rw [← List.drop_drop, happend, List.take_append_drop]
      · omega
      · omega
    · cases hpatch
  · rintro ⟨kept, rest, new', rfl, rfl, rfl, hrest, rfl⟩
    rw [follow_cons, hrest, Option.map_some, List.append_assoc]

/-- All lines that are shown are there in one of the two lists. -/
theorem mem_of_follow (hpatch : follow? passed made old hs = some new) (hh : h ∈ hs) {x : Kind × Line}
    (hx : x ∈ h.lines) : x.2 ∈ old ∨ x.2 ∈ new := by
  induction hs generalizing passed made old new with
  | nil => cases hh
  | cons h' hs ih =>
    obtain ⟨kept, rest, new', rfl, -, -, hrest, rfl⟩ := follow_cons_eq_some_iff.1 hpatch
    rcases List.mem_cons.1 hh with rfl | hh
    · rcases mem_without hx with hmem | hmem
      · simp [hmem]
      · simp [hmem]
    · rcases ih hrest hh with hold | hnew
      · simp [hold]
      · simp [hnew]

/-- A hunk whose lines are shown differently. -/
def Hunk.map (f : Line → Line) (h : Hunk) : Hunk := { h with lines := h.lines.map fun x => (x.1, f x.2) }

/-- Hunks all of whose lines are shown as they are. -/
theorem map_map_eq_self {f : Line → Line} (hf : ∀ h ∈ hs, ∀ x ∈ h.lines, f x.2 = x.2) : hs.map (Hunk.map f) = hs := by
  refine (List.map_congr_left fun h hh => ?_).trans (List.map_id _)
  have hlines : h.lines.map (fun x => (x.1, f x.2)) = h.lines := by
    refine (List.map_congr_left fun x hx => ?_).trans (List.map_id _)
    rw [hf h hh x hx]
    rfl
  rw [Hunk.map, hlines]
  rfl

theorem without_map (gone : Kind) (f : Line → Line) (ls : List (Kind × Line)) :
    without gone (ls.map fun x => (x.1, f x.2)) = (without gone ls).map f := by
  simp [without, List.filter_map, Function.comp_def]

variable {f : Line → Line}

private theorem length_flatten_map_le (hf : ∀ l, (f l).length ≤ l.length) (ls : List Line) :
    (ls.map f).flatten.length ≤ ls.flatten.length ∧
      ((ls.map f).flatten.length = ls.flatten.length → ∀ l ∈ ls, (f l).length = l.length) := by
  induction ls with
  | nil => simp
  | cons l ls ih =>
    have hl := hf l
    simp only [List.map_cons, List.flatten_cons, List.length_append, List.forall_mem_cons]
    refine ⟨by omega, fun heq => ⟨by omega, ih.2 (by omega)⟩⟩

private theorem length_follow_map (hf : ∀ l, (f l).length ≤ l.length) {new' : List Line}
    (hpatch : follow? passed made old hs = some new)
    (hmap : follow? passed made old (hs.map (Hunk.map f)) = some new') :
    new'.flatten.length ≤ new.flatten.length ∧
      (new'.flatten.length = new.flatten.length → ∀ h ∈ hs, ∀ x ∈ h.lines, (f x.2).length = x.2.length) := by
  induction hs generalizing passed made old new new' with
  | nil =>
    cases hpatch
    cases hmap
    exact ⟨Nat.le_refl _, nofun⟩
  | cons h hs ih =>
    obtain ⟨kept, rest, next, rfl, hpassed, hmade, hrest, rfl⟩ := follow_cons_eq_some_iff.1 hpatch
    obtain ⟨kept', rest', next', hold, hpassed', hmade', hrest', rfl⟩ := follow_cons_eq_some_iff.1 hmap
    simp only [Hunk.map, without_map, List.length_map] at hold hpassed' hmade' hrest' ⊢
    -- The lines before the hunk are as many, and so are those that it finds.
    have hkept : kept.length = kept'.length := by omega
    obtain ⟨rfl, hrests⟩ := List.append_inj hold hkept
    obtain ⟨hfound, rfl⟩ := List.append_inj hrests (List.length_map _).symm
    have hafter := length_flatten_map_le hf (without .remove h.lines)
    obtain ⟨hle, heq⟩ := ih hrest hrest'
    simp only [List.flatten_append, List.length_append]
    refine ⟨by omega, fun hlength => List.forall_mem_cons.2 ⟨fun x hx => ?_, heq (by omega)⟩⟩
    rcases mem_without hx with hmem | hmem
    · rw [← List.map_id (without .insert h.lines), List.map_map] at hfound
      exact congrArg List.length (List.map_inj_left.1 hfound _ hmem).symm
    · exact hafter.2 (by omega) _ hmem

/-- Hunks that are shown shorter lead to the same text only if nothing is lost in the lines that they show. -/
theorem follow_map_iff (hf : ∀ l, (f l).length ≤ l.length) (hfix : ∀ l, (f l).length = l.length → f l = l)
    (hpatch : follow? passed made old hs = some new) :
    ((follow? passed made old (hs.map (Hunk.map f))).map List.flatten = some new.flatten) ↔
      ∀ h ∈ hs, ∀ x ∈ h.lines, f x.2 = x.2 := by
  constructor
  · intro hsome
    obtain ⟨new', hmap, hflatten⟩ := Option.map_eq_some_iff.1 hsome
    intro h hh x hx
    exact hfix _ ((length_follow_map hf hpatch hmap).2 (congrArg List.length hflatten) h hh x hx)
  · intro hall
    rw [map_map_eq_self hall, hpatch]
    rfl

end RosRecipes.Diff
