import RosRecipes.Proofs.Diff.Patching
import RosRecipes.Proofs.Text.Split

/-!
# Reading patches

A patch is read line by line: the mark of a line says what becomes of it, a note that the line above it has no ending,
and a header where the lines below it belong and how many there are (`readHunks?`).  The carriage returns in it are
part of the lines.

* `readHunks?_render`: hunks are read as they are rendered.
* `patched?` applies a patch to a text.
-/

namespace RosRecipes.Diff

/-! ### Headers -/

def readNumber? (text : List Char) : Option Nat :=
  if text ≠ [] ∧ text.all Char.isDigit then some (Nat.ofDigitChars 10 text 0) else none

/-- Reads a range of lines: how many lines are before it, and its length. -/
def readRange? (text : List Char) : Option (Nat × Nat) :=
  match Text.split ',' text with
  | [first] => (readNumber? first).map fun n => (n - 1, 1)
  | [first, length] =>
    match readNumber? first, readNumber? length with
    | some n, some length => some (if length = 0 then n else n - 1, length)
    | _, _ => none
  | _ => none

/-- Reads the ranges of a hunk in both texts. -/
def readHeader? (text : List Char) : Option ((Nat × Nat) × (Nat × Nat)) :=
  match Text.split ' ' text with
  | [['@', '@'], '-' :: old, '+' :: new, ['@', '@']] =>
    match readRange? old, readRange? new with
    | some old, some new => some (old, new)
    | _, _ => none
  | _ => none

private theorem isDigit_numeral {n : Nat} {c : Char} (h : c ∈ (toString n).toList) : c.isDigit = true := by
  rw [Nat.toString_eq_repr, Nat.toList_repr] at h
  exact Nat.isDigit_of_mem_toDigits (by decide) (by decide) h

private theorem readNumber?_numeral (n : Nat) : readNumber? (toString n).toList = some n := by
  have hall : (toString n).toList.all Char.isDigit = true := List.all_eq_true.2 fun _ => isDigit_numeral
  have hdigits : (toString n).toList = Nat.toDigits 10 n := by rw [Nat.toString_eq_repr, Nat.toList_repr]
  have hne : (toString n).toList ≠ [] := hdigits ▸ Nat.toDigits_ne_nil
  rw [readNumber?, if_pos ⟨hne, hall⟩, hdigits, Nat.ofDigitChars_toDigits (by decide) (by decide)]

private theorem not_mem_numeral {c : Char} (hc : c.isDigit = false) (n : Nat) : c ∉ (toString n).toList := by
  intro h
  rw [isDigit_numeral h] at hc
  cases hc

private theorem toList_showRange (start length : Nat) :
    (showRange start length).toList =
      (toString (if length = 0 then start else start + 1)).toList ++
        if length = 1 then [] else ',' :: (toString length).toList := by
  unfold showRange
  by_cases h : length = 1
  · simp only [h, if_true, List.append_nil]
  · simp only [h, if_false, String.toList_append, List.append_assoc]
    rfl

private theorem not_mem_range {c : Char} (hdigit : c.isDigit = false) (hcomma : c ≠ ',') (start length : Nat) :
    c ∉ (showRange start length).toList := by
  rw [toList_showRange, List.mem_append, not_or]
  refine ⟨not_mem_numeral hdigit _, ?_⟩
  split
  · exact List.not_mem_nil
  · rw [List.mem_cons, not_or]
    exact ⟨hcomma, not_mem_numeral hdigit _⟩

theorem readRange?_showRange (start length : Nat) :
    readRange? (showRange start length).toList = some (start, length) := by
  have hcomma (n : Nat) : ',' ∉ (toString n).toList := not_mem_numeral rfl n
  rw [readRange?, toList_showRange]
  by_cases h : length = 1
  · rw [if_pos h, List.append_nil, Text.split_of_not_mem (hcomma _)]
    simp only [readNumber?_numeral, Option.map_some, h]
    rfl
  · rw [if_neg h, Text.split_append_sep (hcomma _), Text.split_of_not_mem (hcomma _)]
    simp only [readNumber?_numeral]
    by_cases hzero : length = 0 <;> simp [hzero]

private theorem toList_header (h : Hunk) :
    h.header.toList = Text.join [' '] [['@', '@'],
      '-' :: (showRange h.oldStart (h.lengthWithout .insert)).toList,
      '+' :: (showRange h.newStart (h.lengthWithout .remove)).toList, ['@', '@']] := by
  simp [Hunk.header, Text.join, String.toList_append]

theorem not_mem_header {c : Char} (hdigit : c.isDigit = false) (hc : c ∉ ",@-+ ".toList) (h : Hunk) :
    c ∉ h.header.toList := by
  simp only [String.reduceToList, List.mem_cons, List.not_mem_nil, or_false, not_or] at hc
  rw [toList_header]
  simp [Text.join, not_mem_range hdigit hc.1, hc]

theorem readHeader?_header (h : Hunk) :
    readHeader? h.header.toList =
      some ((h.oldStart, h.lengthWithout .insert), (h.newStart, h.lengthWithout .remove)) := by
  have hspace : ∀ piece ∈ [['@', '@'], '-' :: (showRange h.oldStart (h.lengthWithout .insert)).toList,
      '+' :: (showRange h.newStart (h.lengthWithout .remove)).toList, ['@', '@']], ' ' ∉ piece := by
    have hrange := not_mem_range (c := ' ') rfl (by decide)
    simp [hrange]
  rw [readHeader?, toList_header, Text.split_join (List.cons_ne_nil _ _) hspace]
  simp only [readRange?_showRange]

/-! ### Hunks -/

/-- Reads a line by its mark; a line without one is an empty shared line. -/
def readLine? : List Char → Option (Kind × List Char)
  | [] => some (.keep, [])
  | ' ' :: line => some (.keep, line)
  | '-' :: line => some (.remove, line)
  | '+' :: line => some (.insert, line)
  | _ => none

/-- Reads the lines that belong to the header above them, and the hunks below. -/
def readParts? : List (List Char) → Option (List (Kind × Line) × List Hunk)
  | [] => some ([], [])
  | text :: rest =>
    match readParts? rest with
    | none => none
    | some (lines, hunks) =>
      match readLine? text with
      | some (kind, line) =>
        some ((kind, if rest.head? = some note.toList then line else line ++ ['\n']) :: lines, hunks)
      | none =>
        if text = note.toList then some (lines, hunks)
        else
          match readHeader? text with
          | some (old, new) =>
            if (without .insert lines).length = old.2 ∧ (without .remove lines).length = new.2 then
              some ([], ⟨old.1, new.1, lines⟩ :: hunks)
            else none
          | none => none

/-- Reads hunks, the first of which begins with its header. -/
def readHunks? (texts : List (List Char)) : Option (List Hunk) :=
  match readParts? texts with
  | some ([], hunks) => some hunks
  | _ => none

/-- The lines of a patch, without their line feeds. -/
def textLines (patch : List Char) : List (List Char) := (linesOf patch).map (·.takeWhile (· ≠ '\n'))

/-- What the hunks of a patch make of a text, if they can be applied. -/
def patched? (body old : String) : Option String :=
  match readHunks? (textLines body.toList) with
  | some hunks => (follow? 0 0 (linesOf old.toList) hunks).map fun new => .ofList new.flatten
  | none => none

/-- How a line may be shown: without its ending, which a note says is missing. -/
def Shows (texts : List (List Char)) (x : Kind × Line) : Prop :=
  ∃ text line, readLine? text = some (x.1, line) ∧
    (texts = [text] ∧ x.2 = line ++ ['\n'] ∨ texts = [text, note.toList] ∧ x.2 = line)

variable {texts rest : List (List Char)} {x : Kind × Line} {lines : List (Kind × Line)} {hunks : List Hunk}

private theorem readLine?_note : readLine? note.toList = none := rfl

private theorem readParts?_note (h : readParts? rest = some (lines, hunks)) :
    readParts? (note.toList :: rest) = some (lines, hunks) := by
  rw [readParts?, h]
  dsimp only
  rw [readLine?_note, if_pos rfl]

/-- What shows a line is no note. -/
private theorem head?_shown (h : Shows texts x) (rest : List (List Char)) :
    (texts ++ rest).head? ≠ some note.toList := by
  obtain ⟨text, line, hread, htexts⟩ := h
  have hne : text ≠ note.toList := by
    rintro rfl
    rw [readLine?_note] at hread
    cases hread
  rcases htexts with ⟨rfl, -⟩ | ⟨rfl, -⟩
  · simpa using hne
  · simpa using hne

private theorem readParts?_shown (h : Shows texts x) (hrest : readParts? rest = some (lines, hunks))
    (hnote : rest.head? ≠ some note.toList) : readParts? (texts ++ rest) = some (x :: lines, hunks) := by
  obtain ⟨kind, shown⟩ := x
  obtain ⟨text, line, hread, ⟨rfl, hline⟩ | ⟨rfl, hline⟩⟩ := h
  · rw [List.singleton_append, readParts?, hrest]
    dsimp only
    rw [hread]
    dsimp only at hline ⊢
    rw [if_neg hnote, hline]
  · rw [List.cons_append, List.singleton_append, readParts?, readParts?_note hrest]
    dsimp only
    rw [hread]
    dsimp only at hline ⊢
    rw [List.head?_cons, if_pos rfl, hline]

variable {shown : Kind × Line → List (List Char)} {seen : Line → Line}

private theorem readParts?_lines {ls : List (Kind × Line)} (h : ∀ x ∈ ls, Shows (shown x) (x.1, seen x.2))
    (hrest : readParts? rest = some ([], hunks)) (hnote : rest.head? ≠ some note.toList) :
    readParts? (ls.flatMap shown ++ rest) = some (ls.map fun x => (x.1, seen x.2), hunks) ∧
      (ls.flatMap shown ++ rest).head? ≠ some note.toList := by
  induction ls with
  | nil => exact ⟨hrest, hnote⟩
  | cons x ls ih =>
    obtain ⟨hx, hls⟩ := List.forall_mem_cons.1 h
    obtain ⟨hread, hhead⟩ := ih hls
    rw [List.flatMap_cons, List.append_assoc]
    exact ⟨readParts?_shown hx hread hhead, head?_shown hx _⟩

theorem exists_header (h : Hunk) : ∃ text, h.header.toList = '@' :: text := ⟨_, toList_header h⟩

private theorem header_ne_note (h : Hunk) : h.header.toList ≠ note.toList := by
  obtain ⟨text, htext⟩ := exists_header h
  rw [htext]
  exact fun heq => absurd (List.cons.inj heq).1 (by decide)

private theorem readParts?_header (h : Hunk)
    (hrest : readParts? rest = some (h.lines.map fun x => (x.1, seen x.2), hunks)) :
    readParts? (h.header.toList :: rest) = some ([], h.map seen :: hunks) := by
  have hline : readLine? h.header.toList = none := by
    obtain ⟨text, htext⟩ := exists_header h
    rw [htext]
    rfl
  have hlength : ∀ gone, (without gone (h.lines.map fun x => (x.1, seen x.2))).length = h.lengthWithout gone := by
    intro gone
    rw [without_map, List.length_map, length_without]
    rfl
  rw [readParts?, hrest]
  dsimp only
  rw [hline]
  dsimp only
  rw [if_neg (header_ne_note h), readHeader?_header]
  dsimp only
  rw [if_pos ⟨hlength .insert, hlength .remove⟩]
  rfl

/-- Hunks are read as they are shown. -/
theorem readHunks?_shown {hs : List Hunk} (h : ∀ h ∈ hs, ∀ x ∈ h.lines, Shows (shown x) (x.1, seen x.2)) :
    readHunks? (hs.flatMap fun h => h.header.toList :: h.lines.flatMap shown) = some (hs.map (Hunk.map seen)) := by
  have hparts : readParts? (hs.flatMap fun h => h.header.toList :: h.lines.flatMap shown) =
      some ([], hs.map (Hunk.map seen)) ∧
        (hs.flatMap fun h => h.header.toList :: h.lines.flatMap shown).head? ≠ some note.toList := by
    induction hs with
    | nil => exact ⟨rfl, nofun⟩
    | cons h₁ hs ih =>
      obtain ⟨hlines, hmore⟩ := List.forall_mem_cons.1 h
      obtain ⟨hread, hnote⟩ := ih hmore
      rw [List.flatMap_cons, List.cons_append]
      refine ⟨readParts?_header h₁ (readParts?_lines hlines hread hnote).1, ?_⟩
      exact fun heq => header_ne_note h₁ (Option.some.inj heq)
  rw [readHunks?, hparts.1]

/-! ### Lines -/

theorem readLine?_mark (kind : Kind) (line : List Char) : readLine? (mark kind :: line) = some (kind, line) := by
  cases kind <;> rfl

/-- A line whose characters before the line feed are shown differently. -/
def reshown (f : List Char → List Char) (line : Line) : Line :=
  if line.getLast? = some '\n' then f line.dropLast ++ ['\n'] else f line

theorem reshown_id (line : Line) : reshown id line = line := by
  unfold reshown
  split
  · next h =>
    obtain ⟨start, rfl⟩ := List.getLast?_eq_some_iff.1 h
    rw [List.dropLast_concat]
    rfl
  · rfl

/-- What shows a line still does so if only what is behind its mark is changed. -/
theorem shows_showLine {f g : List Char → List Char} (hnil : f [] = [] ∧ g [] = [])
    (hnote : f note.toList = note.toList) (hmark : ∀ kind line, f (mark kind :: line) = mark kind :: g line)
    (x : Kind × Line) : Shows ((showLine x).map fun text => f text.toList) (x.1, reshown g x.2) := by
  obtain ⟨kind, line⟩ := x
  unfold showLine
  split
  · next heq =>
    cases heq
    refine ⟨[], [], rfl, .inl ⟨?_, ?_⟩⟩
    · simp [hnil.1]
    · simp [reshown, hnil.2]
  · next heq =>
    cases heq
    by_cases hended : line.getLast? = some '\n'
    · refine ⟨_, g line.dropLast, readLine?_mark kind _, .inl ?_⟩
      simp [hended, hmark, reshown]
    · refine ⟨_, g line, readLine?_mark kind _, .inr ?_⟩
      simp [hended, hmark, reshown, hnote]

/-- Hunks are read as they are rendered, if only what is behind marks is changed. -/
theorem readHunks?_render {f g : List Char → List Char} (hheader : ∀ h : Hunk, f h.header.toList = h.header.toList)
    (hnil : f [] = [] ∧ g [] = []) (hnote : f note.toList = note.toList)
    (hmark : ∀ kind line, f (mark kind :: line) = mark kind :: g line) (hs : List Hunk) :
    readHunks? ((hs.flatMap Hunk.render).map fun text => f text.toList) = some (hs.map (Hunk.map (reshown g))) := by
  have htexts : (hs.flatMap Hunk.render).map (fun text => f text.toList) =
      hs.flatMap fun h => h.header.toList :: h.lines.flatMap fun x => (showLine x).map fun text => f text.toList := by
    simp [Hunk.render, List.map_flatMap, hheader]
  rw [htexts]
  exact readHunks?_shown fun _ _ x _ => shows_showLine hnil hnote hmark x

end RosRecipes.Diff
