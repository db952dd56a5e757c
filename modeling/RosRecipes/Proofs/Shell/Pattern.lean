import Mathlib.Data.List.TakeWhile
import RosRecipes.Proofs.Text.Split
import RosRecipes.Shell.Expansion

/-!
# What patterns fit

The rules by which a pattern fits a text are a relation (`Fits`), in which a star skips any text, a question mark any
character, and a bracket a character of the set that it opens; a bracket that nothing closes stands for itself, and so
does whatever is quoted.

* `fits_iff`: the search decides the relation, with any fuel above the lengths of both.
* `fits_quoted_iff`: a pattern that is quoted as a whole fits only its own text.
* `trimFitting_spec`: the operators on values cut off the shortest or the longest part that fits.
-/

namespace RosRecipes.Shell

/-- Does the character of a pattern stand for itself? -/
def Literal (x : Char) (quoted : Bool) : Prop := quoted = true ∨ x ∉ ['*', '?', '[']

/-- A pattern fits a text. -/
inductive Fits : List (Char × Bool) → List Char → Prop
  | nil : Fits [] []
  | star {rest text} (skipped : List Char) : Fits rest text → Fits (('*', false) :: rest) (skipped ++ text)
  | any {rest text} (c : Char) : Fits rest text → Fits (('?', false) :: rest) (c :: text)
  | set {members rest text c} : (']', false) ∉ members → inSet (members.map (·.1)) c → Fits rest text →
      Fits (('[', false) :: (members ++ (']', false) :: rest)) (c :: text)
  /-- A bracket that is not closed. -/
  | bracket {rest text} : (']', false) ∉ rest → Fits rest text → Fits (('[', false) :: rest) ('[' :: text)
  | literal {x quoted rest text} : Literal x quoted → Fits rest text → Fits ((x, quoted) :: rest) (x :: text)

variable {pattern rest members : List (Char × Bool)} {text : List Char} {x c : Char} {quoted : Bool}

/-! ### One character of a pattern -/

theorem fits_nil_iff : Fits [] text ↔ text = [] := by
  constructor
  · intro h
    cases h
    rfl
  · rintro rfl
    exact .nil

theorem fits_star_nil_iff : Fits (('*', false) :: rest) [] ↔ Fits rest [] := by
  constructor
  · intro h
    generalize htext : [] = text at h
    cases h with
    | star skipped hrest =>
      obtain ⟨rfl, rfl⟩ := List.append_eq_nil_iff.1 htext.symm
      exact hrest
    | literal hx => cases htext
  · exact .star []

/-- A star skips nothing, or one character more. -/
theorem fits_star_cons_iff :
    Fits (('*', false) :: rest) (c :: text) ↔ Fits rest (c :: text) ∨ Fits (('*', false) :: rest) text := by
  constructor
  · intro h
    generalize htext : c :: text = whole at h
    cases h with
    | star skipped hrest =>
      cases skipped with
      | nil =>
        subst htext
        exact .inl hrest
      | cons d skipped =>
        obtain ⟨-, rfl⟩ := List.cons.inj htext
        exact .inr (.star skipped hrest)
    | literal hx => simp [Literal] at hx
  · rintro (hrest | hstar)
    · exact .star [] hrest
    · generalize hpattern : ('*', false) :: rest = pattern at hstar ⊢
      cases hstar with
      | star skipped hrest => exact .star (c :: skipped) hrest
      | literal hx =>
        cases hpattern
        simp [Literal] at hx
      | _ => cases hpattern

theorem fits_any_iff : Fits (('?', false) :: rest) (c :: text) ↔ Fits rest text := by
  constructor
  · intro h
    cases h with
    | any _ hrest => exact hrest
    | literal hx => simp [Literal] at hx
  · exact .any c

private theorem append_close_inj {members' : List (Char × Bool)} {rest' : List (Char × Bool)}
    (h : (']', false) ∉ members) (h' : (']', false) ∉ members')
    (heq : members ++ (']', false) :: rest = members' ++ (']', false) :: rest') :
    members = members' ∧ rest = rest' := by
  have hlength : members.length = members'.length := by
    have := congrArg (List.idxOf (']', false)) heq
    simpa [List.idxOf_append, h, h'] using this
  obtain ⟨hmembers, hrest⟩ := List.append_inj heq hlength
  exact ⟨hmembers, (List.cons.inj hrest).2⟩

theorem fits_set_iff (h : (']', false) ∉ members) :
    Fits (('[', false) :: (members ++ (']', false) :: rest)) (c :: text) ↔
      inSet (members.map (·.1)) c ∧ Fits rest text := by
  constructor
  · intro hfits
    generalize hpattern : members ++ (']', false) :: rest = pattern at hfits
    cases hfits with
    | set hmembers hc hrest =>
      obtain ⟨rfl, rfl⟩ := append_close_inj h hmembers hpattern
      exact ⟨hc, hrest⟩
    | bracket hopen => exact absurd (by simp [← hpattern]) hopen
    | literal hx => simp [Literal] at hx
  · rintro ⟨hc, hrest⟩
    exact .set h hc hrest

theorem fits_bracket_iff (h : (']', false) ∉ rest) :
    Fits (('[', false) :: rest) (c :: text) ↔ c = '[' ∧ Fits rest text := by
  constructor
  · intro hfits
    cases hfits with
    | set => simp at h
    | bracket _ hrest => exact ⟨rfl, hrest⟩
    | literal hx => simp [Literal] at hx
  · rintro ⟨rfl, hrest⟩
    exact .bracket h hrest

theorem fits_literal_iff (h : Literal x quoted) : Fits ((x, quoted) :: rest) (c :: text) ↔ x = c ∧ Fits rest text := by
  constructor
  · intro hfits
    generalize htext : c :: text = whole at hfits
    cases hfits with
    | literal _ hrest =>
      obtain ⟨rfl, rfl⟩ := List.cons.inj htext
      exact ⟨rfl, hrest⟩
    | _ => simp [Literal] at h
  · rintro ⟨rfl, hrest⟩
    exact .literal h hrest

/-- Only a star fits nothing. -/
theorem not_fits_cons_nil (h : ¬ (x = '*' ∧ quoted = false)) : ¬ Fits ((x, quoted) :: rest) [] := by
  intro hfits
  generalize htext : [] = text at hfits
  cases hfits with
  | star => exact h ⟨rfl, rfl⟩
  | _ => cases htext

/-! ### The search -/

/-- What follows an opening bracket: a set that is closed, or no closing bracket. -/
private theorem members_cases (rest : List (Char × Bool)) :
    (∃ members later, rest = members ++ (']', false) :: later ∧ (']', false) ∉ members ∧
      rest.takeWhile (· ≠ (']', false)) = members) ∨
    ((']', false) ∉ rest ∧ rest.takeWhile (· ≠ (']', false)) = rest) := by
  by_cases hmem : (']', false) ∈ rest
  · obtain ⟨members, later, rfl, hnot⟩ := List.eq_append_cons_of_mem hmem
    exact .inl ⟨members, later, rfl, hnot, Text.takeWhile_ne_append hnot later⟩
  · refine .inr ⟨hmem, ?_⟩
    rw [List.takeWhile_eq_self_iff]
    intro e he
    simpa using ne_of_mem_of_not_mem he hmem

/-- The search decides whether a pattern fits.  Each round drops a character of the text or of the pattern. -/
theorem fits_iff {fuel : Nat} (hfuel : pattern.length + text.length < fuel) :
    fits pattern text fuel = true ↔ Fits pattern text := by
  induction fuel generalizing pattern text with
  | zero => cases Nat.not_lt_zero _ hfuel
  | succ fuel ih =>
    unfold fits
    split
    · rw [List.isEmpty_iff, fits_nil_iff]
    · next rest =>
      rw [fits_star_nil_iff, ih (by simpa using hfuel)]
    · next rest c text =>
      simp only [List.length_cons] at hfuel
      rw [fits_star_cons_iff, Bool.or_eq_true, ih (by simp only [List.length_cons]; omega),
        ih (by simp only [List.length_cons]; omega)]
    · next rest c text =>
      simp only [List.length_cons] at hfuel
      rw [fits_any_iff, ih (by omega)]
    · next rest c text =>
      simp only [List.length_cons] at hfuel
      rcases members_cases rest with ⟨members, later, rfl, hnot, htake⟩ | ⟨hnot, htake⟩
      · simp only [List.length_append, List.length_cons] at hfuel
        rw [htake, fits_set_iff hnot]
        simp only [List.length_map, List.length_append, List.length_cons]
        rw [if_neg (by omega), Bool.and_eq_true]
        have hdrop : (members ++ (']', false) :: later).drop (members.length + 1) = later := by
          rw [← List.drop_drop, List.drop_left, List.drop_one, List.tail_cons]
        rw [hdrop, ih (by omega)]
      · rw [htake, fits_bracket_iff hnot]
        simp only [List.length_map, ↓reduceIte, Bool.and_eq_true, decide_eq_true_eq]
        rw [ih (by omega)]
    · next x quoted rest c text hstar hany hset =>
      simp only [List.length_cons] at hfuel
      have hx : Literal x quoted := by
        cases quoted with
        | true => exact .inl rfl
        | false =>
          refine .inr fun hmem => ?_
          simp only [List.mem_cons, List.not_mem_nil, or_false] at hmem
          rcases hmem with rfl | rfl | rfl
          · exact hstar rfl rfl
          · exact hany rfl rfl
          · exact hset rfl rfl
      rw [fits_literal_iff hx, Bool.and_eq_true, decide_eq_true_eq, ih (by omega)]
    · next x rest hstar =>
      obtain ⟨x, quoted⟩ := x
      simp only [Bool.false_eq_true, false_iff]
      refine not_fits_cons_nil ?_
      rintro ⟨rfl, rfl⟩
      exact hstar rfl

/-- A pattern that is quoted as a whole fits its own text and no other. -/
theorem fits_quoted_iff {own : List Char} : Fits (own.map (·, true)) text ↔ text = own := by
  induction own generalizing text with
  | nil => exact fits_nil_iff
  | cons x own ih =>
    cases text with
    | nil => exact iff_of_false (not_fits_cons_nil (by simp)) (by simp)
    | cons c text =>
      rw [List.map_cons, fits_literal_iff (.inl rfl), ih, List.cons.injEq, eq_comm (a := x)]

/-! ### Cutting off what fits -/

/-- The operators that cut a part off: at the start or at the end of a text, the longest or the shortest one. -/
def cutSign (atStart longest : Bool) : String :=
  match atStart, longest with
  | true, true => "##"
  | true, false => "#"
  | false, true => "%%"
  | false, false => "%"

/-- A text is cut into a part at its start, or at its end, and the rest. -/
def Cut (atStart : Bool) (part rest text : List Char) : Prop :=
  text = if atStart then part ++ rest else rest ++ part

/-- `rest` is what the longest part that fits, or the shortest one, leaves of a text. -/
def Leaves (atStart longest : Bool) (pattern : List (Char × Bool)) (text rest : List Char) : Prop :=
  ∃ part, Cut atStart part rest text ∧ Fits pattern part ∧ ∀ other left, Cut atStart other left text →
    Fits pattern other → if longest then other.length ≤ part.length else part.length ≤ other.length

/-- The part that ends, or begins, after some characters. -/
private def partAt (atStart : Bool) (text : List Char) (n : Nat) : List Char :=
  if atStart then text.take n else text.drop n

private def restAt (atStart : Bool) (text : List Char) (n : Nat) : List Char :=
  if atStart then text.drop n else text.take n

private theorem cut_partAt (atStart : Bool) (text : List Char) (n : Nat) :
    Cut atStart (partAt atStart text n) (restAt atStart text n) text := by
  cases atStart <;> simp [Cut, partAt, restAt]

private theorem exists_partAt {atStart : Bool} {part left : List Char} (h : Cut atStart part left text) :
    ∃ n ≤ text.length, part = partAt atStart text n := by
  cases atStart with
  | true =>
    have htext : text = part ++ left := h
    exact ⟨part.length, by simp [htext], by simp [partAt, htext]⟩
  | false =>
    have htext : text = left ++ part := h
    exact ⟨left.length, by simp [htext], by simp [partAt, htext]⟩

/-- The order in which the places of a text are tried. -/
private def places (atStart longest : Bool) (text : List Char) : List Nat :=
  if atStart = longest then (List.range (text.length + 1)).reverse else List.range (text.length + 1)

private theorem mem_places {atStart longest : Bool} {n : Nat} :
    n ∈ places atStart longest text ↔ n ≤ text.length := by
  unfold places
  split
  · rw [List.mem_reverse, List.mem_range, Nat.lt_succ_iff]
  · rw [List.mem_range, Nat.lt_succ_iff]

/-- Places that are tried later give parts that are no better. -/
private theorem pairwise_places (atStart longest : Bool) (text : List Char) :
    (places atStart longest text).Pairwise fun n m =>
      if longest then (partAt atStart text m).length ≤ (partAt atStart text n).length
      else (partAt atStart text n).length ≤ (partAt atStart text m).length := by
  have hup : (List.range (text.length + 1)).Pairwise (· < ·) := List.pairwise_lt_range
  have hdown : (List.range (text.length + 1)).reverse.Pairwise (· > ·) := List.pairwise_reverse.2 hup
  cases atStart <;> cases longest <;> simp only [places, partAt, Bool.false_eq_true, ↓reduceIte, reduceCtorEq]
  · exact hdown.imp fun h => by simp; omega
  · exact hup.imp fun h => by simp; omega
  · exact hup.imp fun h => by simp; omega
  · exact hdown.imp fun h => by simp; omega

private theorem trimFitting_cutSign (atStart longest : Bool) (pattern : List (Char × Bool)) (text : List Char) :
    trimFitting (cutSign atStart longest) pattern text =
      (((places atStart longest text).find? fun n => fits pattern (partAt atStart text n)
        (pattern.length + (partAt atStart text n).length + 1)).map (restAt atStart text)).getD text := by
  have hstart : "#".startsWith "#" = true ∧ "##".startsWith "#" = true ∧ "%".startsWith "#" = false ∧
      "%%".startsWith "#" = false := by decide +kernel
  cases atStart <;> cases longest <;>
    simp only [trimFitting, cutSign, places, partAt, hstart, String.reduceEq, imp_self, Bool.false_eq_true, ↓reduceIte,
      reduceCtorEq] <;>
    split <;>
    · next hfind =>
      rw [hfind]
      rfl

/-- An operator cuts off the longest part that fits, or the shortest one; if no part fits, the text stays. -/
theorem trimFitting_spec (atStart longest : Bool) (pattern : List (Char × Bool)) (text : List Char) :
    Leaves atStart longest pattern text (trimFitting (cutSign atStart longest) pattern text) ∨
    (∀ part left, Cut atStart part left text → ¬ Fits pattern part) ∧
      trimFitting (cutSign atStart longest) pattern text = text := by
  rw [trimFitting_cutSign]
  have hfits : ∀ n, fits pattern (partAt atStart text n) (pattern.length + (partAt atStart text n).length + 1) = true ↔
      Fits pattern (partAt atStart text n) := fun n => fits_iff (Nat.lt_succ_self _)
  cases hfind : (places atStart longest text).find? fun n => fits pattern (partAt atStart text n)
      (pattern.length + (partAt atStart text n).length + 1) with
  | none =>
    refine .inr ⟨fun part left hcut hpart => ?_, rfl⟩
    obtain ⟨n, hn, rfl⟩ := exists_partAt hcut
    exact List.find?_eq_none.1 hfind n (mem_places.2 hn) ((hfits n).2 hpart)
  | some n =>
    obtain ⟨hn, before, after, hplaces, hbefore⟩ := List.find?_eq_some_iff_append.1 hfind
    refine .inl ⟨partAt atStart text n, cut_partAt atStart text n, (hfits n).1 hn, fun other left hcut hother => ?_⟩
    obtain ⟨m, hm, rfl⟩ := exists_partAt hcut
    have hmem : m ∈ places atStart longest text := mem_places.2 hm
    have hlater := (List.pairwise_append.1 (hplaces ▸ pairwise_places atStart longest text)).2.1
    rw [hplaces, List.mem_append, List.mem_cons] at hmem
    rcases hmem with hearlier | rfl | hafter
    · have := hbefore m hearlier
      simp [(hfits m).2 hother] at this
    · split <;> exact Nat.le_refl _
    · exact List.rel_of_pairwise_cons hlater hafter

end RosRecipes.Shell
