import Mathlib.Data.List.TakeWhile
import RosRecipes.Proofs.Text.Split
import RosRecipes.Shell.Expansion

/-!
# Quoted commands

Any text can be given to a program as an argument: between single quotes nothing has a meaning but the quote itself,
which is written after a backslash outside of them (`quotedWord`).

* `parse?_commandLine`: words that are quoted and joined by blanks are read as one command.
* `expandAll_quoted`: and the command gets the texts themselves.
-/

namespace RosRecipes.Shell

open Token

variable {s rest : List Char} {w : Word} {fuel : Nat}

/-- What stands between the quotes: a quote closes them, comes after a backslash, and opens them again. -/
def inQuotes (s : List Char) : List Char :=
  s.flatMap fun c => if c = '\'' then ['\'', '\\', '\'', '\''] else [c]

/-- A text between single quotes. -/
def quotedWord (s : List Char) : List Char := '\'' :: (inQuotes s ++ ['\''])

/-- The command that calls a program with some arguments. -/
def commandLine (words : List (List Char)) : List Char := List.intercalate [' '] (words.map quotedWord)

/-! ### Words -/

theorem push_push (a b : List Char) (quoted : Bool) (w : Word) :
    push (.text b quoted) (push (.text a quoted) w) = push (.text (a ++ b) quoted) w := by
  cases w with
  | nil => simp [push]
  | cons part w =>
    cases part with
    | text text same => cases quoted <;> cases same <;> simp [push]
    | _ => simp [push]

/-- What is before the next quote becomes a part of the word. -/
private theorem scanWord_plain (h : '\'' ∉ s) (w : Word) (rest : List Char) (fuel : Nat) :
    scanWord (.bare false) w ('\'' :: (s ++ '\'' :: rest)) (fuel + 1) =
      scanWord (.bare false) (push (.text s true) w) rest fuel := by
  have htake := Text.takeWhile_ne_append h rest
  have hdrop : (s ++ '\'' :: rest).drop (s.length + 1) = rest := by
    rw [← List.drop_drop, List.drop_left, List.drop_one, List.tail_cons]
  have hstep : ∀ cs : List Char, scanWord (.bare false) w ('\'' :: cs) (fuel + 1) =
      if (cs.takeWhile (· ≠ '\'')).length = cs.length then none
      else scanWord (.bare false) (push (.text (cs.takeWhile (· ≠ '\'')) true) w)
        (cs.drop ((cs.takeWhile (· ≠ '\'')).length + 1)) fuel := fun _ => rfl
  rw [hstep, htake, hdrop, if_neg (by simp)]

private theorem scanWord_escaped (w : Word) (rest : List Char) (fuel : Nat) :
    scanWord (.bare false) w ('\\' :: '\'' :: rest) (fuel + 1) =
      scanWord (.bare false) (push (.text ['\''] true) w) rest fuel := rfl

private theorem inQuotes_of_not_mem (h : '\'' ∉ s) : inQuotes s = s := by
  induction s with
  | nil => rfl
  | cons c s ih =>
    rw [List.mem_cons, not_or] at h
    unfold inQuotes
    rw [List.flatMap_cons, if_neg (Ne.symm h.1)]
    exact congrArg (c :: ·) (ih h.2)

theorem quotedWord_of_not_mem (h : '\'' ∉ s) : quotedWord s = '\'' :: (s ++ ['\'']) := by
  rw [quotedWord, inQuotes_of_not_mem h]

theorem quotedWord_append {a : List Char} (h : '\'' ∉ a) (b : List Char) :
    quotedWord (a ++ '\'' :: b) = '\'' :: (a ++ '\'' :: '\\' :: '\'' :: quotedWord b) := by
  have hsplit : inQuotes (a ++ '\'' :: b) = inQuotes a ++ (['\'', '\\', '\'', '\''] ++ inQuotes b) :=
    List.flatMap_append
  rw [quotedWord, hsplit, inQuotes_of_not_mem h, List.append_assoc]
  rfl

private theorem scanWord_ends (hrest : ∀ c ∈ rest.head?, endsWord c = true) (w : Word) (fuel : Nat) :
    scanWord (.bare false) w rest (fuel + 1) = some (w.reverse, rest) := by
  cases rest with
  | nil => rfl
  | cons c rest =>
    have hc := hrest c rfl
    simp only [endsWord, List.mem_cons, List.not_mem_nil, or_false, decide_eq_true_eq] at hc
    rcases hc with rfl | rfl | rfl | rfl | rfl | rfl | rfl | rfl | rfl | rfl <;> rfl

/-- A quoted word is read as one part, up to what ends the word.  The induction is on the length of what is left, from
one quote in the text to the next. -/
theorem scanWord_quotedWord (hrest : ∀ c ∈ rest.head?, endsWord c = true) (w : Word)
    (hfuel : (quotedWord s ++ rest).length < fuel) :
    scanWord (.bare false) w (quotedWord s ++ rest) fuel = some ((push (.text s true) w).reverse, rest) := by
  induction hlength : s.length using Nat.strong_induction_on generalizing s w fuel with
  | _ n ih =>
    by_cases hquote : '\'' ∈ s
    · obtain ⟨a, b, rfl, ha⟩ := List.eq_append_cons_of_mem hquote
      rw [quotedWord_append ha] at hfuel ⊢
      simp only [List.cons_append, List.append_assoc, List.length_cons, List.length_append] at hfuel ⊢
      obtain ⟨fuel, rfl⟩ : ∃ k, fuel = k + 2 := ⟨fuel - 2, by omega⟩
      rw [scanWord_plain ha, scanWord_escaped, ih b.length (by simp [← hlength]; omega) _ ?_ rfl, push_push, push_push]
      · simp
      · simp only [List.length_append]
        omega
    · rw [quotedWord_of_not_mem hquote] at hfuel ⊢
      simp only [List.cons_append, List.append_assoc, List.length_cons, List.length_append, List.nil_append] at hfuel ⊢
      obtain ⟨fuel, rfl⟩ : ∃ k, fuel = k + 2 := ⟨fuel - 2, by omega⟩
      rw [scanWord_plain hquote, scanWord_ends hrest]

/-! ### Commands -/

theorem commandLine_cons_cons (s t : List Char) (words : List (List Char)) :
    commandLine (s :: t :: words) = quotedWord s ++ ' ' :: commandLine (t :: words) := by
  simp [commandLine, List.intercalate]

/-- The tokens of quoted words, of which the first is on the given line. -/
def quotedTokens (line : Nat) : List (List Char) → List Token
  | [] => []
  | s :: words => .word [.text s true] line :: quotedTokens (line + (quotedWord s).count '\n') words

/-- A quote begins a word. -/
private theorem scanFrom_quote {cs : List Char} (line : Nat)
    (h : scanWord (.bare false) [] ('\'' :: cs) (cs.length + 2) = some (w, rest)) :
    scanFrom line ('\'' :: cs) (fuel + 1) =
      (scanFrom (line + ((('\'' :: cs).take (cs.length + 1 - rest.length)).filter (· = '\n')).length) rest fuel).map
        (.word w line :: ·) := by
  have hmarks : marks.find? (·.isPrefixOf ('\'' :: cs)) = none := rfl
  have hredirection : redirection? ('\'' :: cs) = none := rfl
  rw [scanFrom]
  · cases hlater : scanFrom (line + ((('\'' :: cs).take (cs.length + 1 - rest.length)).filter (· = '\n')).length)
        rest fuel with
    | none => simp [hmarks, hredirection, h, hlater]
    | some ts => simp [hmarks, hredirection, h, hlater]
  · simp

private theorem scanFrom_quotedWord (line : Nat) (hrest : ∀ c ∈ rest.head?, endsWord c = true) :
    scanFrom line (quotedWord s ++ rest) (fuel + 1) =
      (scanFrom (line + (quotedWord s).count '\n') rest fuel).map (.word [.text s true] line :: ·) := by
  obtain ⟨cs, hcs⟩ : ∃ cs, quotedWord s ++ rest = '\'' :: cs := ⟨_, rfl⟩
  have hlength : (quotedWord s ++ rest).length = cs.length + 1 := by simp [hcs]
  have hword := scanWord_quotedWord (s := s) hrest [] (Nat.lt_succ_self _)
  rw [hlength, hcs] at hword
  rw [hcs, scanFrom_quote line hword]
  have htaken : ('\'' :: cs).take (cs.length + 1 - rest.length) = quotedWord s := by
    rw [← hcs, ← hlength, List.length_append, Nat.add_sub_cancel, List.take_left]
  rw [htaken, List.count_eq_length_filter]
  simp [push, beq_eq_decide]

theorem scanFrom_commandLine (line : Nat) (words : List (List Char)) (hfuel : (commandLine words).length < fuel) :
    scanFrom line (commandLine words) fuel = some (quotedTokens line words) := by
  have hpos : ∀ s, 2 ≤ (quotedWord s).length := fun s => by simp [quotedWord]
  induction words generalizing line fuel with
  | nil =>
    obtain ⟨fuel, rfl⟩ : ∃ k, fuel = k + 1 := ⟨fuel - 1, by omega⟩
    rfl
  | cons s words ih =>
    cases words with
    | nil =>
      have hline : commandLine [s] = quotedWord s ++ [] := by simp [commandLine, List.intercalate]
      rw [hline, List.append_nil] at hfuel
      obtain ⟨fuel, rfl⟩ : ∃ k, fuel = k + 2 := ⟨fuel - 2, by have := hpos s; omega⟩
      rw [hline, scanFrom_quotedWord line (by simp)]
      rfl
    | cons t words =>
      rw [commandLine_cons_cons] at hfuel ⊢
      simp only [List.length_append, List.length_cons] at hfuel
      have hs := hpos s
      obtain ⟨fuel, rfl⟩ : ∃ k, fuel = k + 2 := ⟨fuel - 2, by omega⟩
      have hblank : ∀ line cs, scanFrom line (' ' :: cs) (fuel + 1) = scanFrom line cs fuel := fun _ _ => rfl
      rw [scanFrom_quotedWord line (by simp [endsWord]), hblank, ih _ (by omega)]
      rfl

/-! ### Reading -/

namespace Node

theorem readWords_quoted {line : Nat} (hline : line ≠ 0) (done : List Word) (next : Nat) (words : List (List Char)) :
    readWords [] (done ++ [w]) [] line (quotedTokens next words) =
      (simple line [] (done ++ [w] ++ words.map fun s => [.text s true]), []) := by
  induction words generalizing done w next with
  | nil => simp [quotedTokens, readWords]
  | cons s words ih =>
    have hword : ∀ ts, readWords [] (done ++ [w]) [] line (.word [.text s true] next :: ts) =
        readWords [] (done ++ [w] ++ [[.text s true]]) [] line ts := by
      intro ts
      simp [readWords, hline]
    rw [quotedTokens, hword, ih]
    simp

theorem read_command_quoted (s : List Char) (words : List (List Char)) :
    read .command (quotedTokens 1 (s :: words)) (fuel + 1) =
      some (simple 1 [] ((s :: words).map fun s => [.text s true]), [], []) := by
  have hwords : readWords [] [] [] 0 (quotedTokens 1 (s :: words)) =
      (simple 1 [] ((s :: words).map fun s => [.text s true]), []) := readWords_quoted (by decide) [] _ words
  have hkeyword : keyword? (quotedTokens 1 (s :: words)) = none := rfl
  have hlength : ¬ 0 = (quotedTokens 1 (s :: words)).length := by simp [quotedTokens]
  rw [read]
  · simp [hwords, hkeyword, hlength]
  · intro ts h
    simp [quotedTokens] at h
  · intro w line ts h
    cases words <;> simp [quotedTokens] at h

theorem read_pipeline_quoted (s : List Char) (words : List (List Char)) :
    read .pipeline (quotedTokens 1 (s :: words)) (fuel + 2) =
      some (simple 1 [] ((s :: words).map fun s => [.text s true]), [], []) := by
  have hkeyword : dropKeyword "!" (quotedTokens 1 (s :: words)) = none := rfl
  rw [read]
  simp [hkeyword, read_command_quoted, dropMark]

theorem read_condition_quoted (s : List Char) (words : List (List Char)) :
    read .condition (quotedTokens 1 (s :: words)) (fuel + 3) =
      some (simple 1 [] ((s :: words).map fun s => [.text s true]), [], []) := by
  rw [read]
  simp [read_pipeline_quoted]

theorem read_list_quoted (s : List Char) (words : List (List Char)) :
    read .list (quotedTokens 1 (s :: words)) (fuel + 4) =
      some (simple 1 [] ((s :: words).map fun s => [.text s true]), [], []) := by
  have hcondition := @read_condition_quoted fuel s words
  have hend : read .list [] (fuel + 3) = some (nothing, [], []) := rfl
  rw [quotedTokens] at hcondition ⊢
  rw [read]
  simp [hcondition, hend, dropEnds, keyword?, plain?]

end Node

/-- Words that are quoted and joined by blanks are one command. -/
theorem parse?_commandLine {words : List (List Char)} (h : words ≠ []) :
    Node.parse? (commandLine words) = some (.simple 1 [] (words.map fun s => [.text s true])) := by
  obtain ⟨s, words, rfl⟩ := List.exists_cons_of_ne_nil h
  have hscan := scanFrom_commandLine 1 (s :: words) (Nat.lt_succ_self _)
  unfold Node.parse? Token.scan
  rw [hscan]
  simp [Node.read_list_quoted]

/-- Each quoted word becomes the text in it. -/
theorem expandAll_quoted (capture : Capture) (p : Process) (words : List (List Char)) :
    expandAll capture p (words.map fun s => [.text s true]) = (p, words.map .ofList) := by
  have hexpand : ∀ s : List Char, expand capture p [.text s true] = (p, [.characters s true]) := fun _ => rfl
  have hsplit : ∀ s : List Char, split [.text s true] [.characters s true] = [.ofList s] := by
    intro s
    simp [split, holdsArguments]
  have hall : ∀ done : List String, (words.map fun s => [Part.text s true]).foldl (fun state w =>
      ((expand capture state.1 w).1, state.2 ++ split w (expand capture state.1 w).2)) (p, done) =
        (p, done ++ words.map .ofList) := by
    induction words with
    | nil => simp
    | cons s words ih =>
      intro done
      rw [List.map_cons, List.foldl_cons]
      dsimp only
      rw [hexpand, hsplit, ih]
      simp
  exact hall []

end RosRecipes.Shell
