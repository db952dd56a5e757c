/-!
# Blanks, lines and words

The blanks of a text are the characters with the Unicode property White_Space.  Everything here works on
lists of characters:

* `trim` drops the blanks at both ends,
* `words` are the maximal runs without a blank,
* `lines` are the pieces between line feeds, without the line endings.

Only `unlines`, which ends lines, is about strings.
-/

namespace RosRecipes.Text

/-- The Unicode property White_Space. -/
def isBlank (c : Char) : Bool :=
  let n := c.toNat
  (9 ≤ n && n ≤ 13) || n == 0x20 || n == 0x85 || n == 0xA0 || n == 0x1680 || (0x2000 ≤ n && n ≤ 0x200A) ||
    n == 0x2028 || n == 0x2029 || n == 0x202F || n == 0x205F || n == 0x3000

/-- Drops the blanks at the end. -/
def trimEnd (s : List Char) : List Char := (s.reverse.dropWhile isBlank).reverse

/-- Drops the blanks at both ends. -/
def trim (s : List Char) : List Char := trimEnd (s.dropWhile isBlank)

/-- The text without the blanks at its ends. -/
def trimmed (s : String) : String := .ofList (trim s.toList)

/-- The words of the rest of a text, of which `word` is the begun one, reversed. -/
private def wordsFrom (word : List Char) : List Char → List (List Char)
  | [] => if word.isEmpty then [] else [word.reverse]
  | c :: rest =>
    if isBlank c then
      if word.isEmpty then wordsFrom [] rest else word.reverse :: wordsFrom [] rest
    else wordsFrom (c :: word) rest

/-- The maximal runs of characters that are not blank. -/
def words (s : List Char) : List (List Char) := wordsFrom [] s

/-- The pieces of a text between the occurrences of a separator; there is always at least one. -/
def split (sep : Char) : List Char → List (List Char)
  | [] => [[]]
  | c :: rest =>
    if c = sep then [] :: split sep rest
    else
      match split sep rest with
      | [] => [[c]]
      | piece :: pieces => (c :: piece) :: pieces

/-- Drops one carriage return at the end. -/
def dropReturn (s : List Char) : List Char :=
  match s.getLast? with
  | some '\r' => s.dropLast
  | _ => s

/-- The lines of a text: a line ends with a line feed or at the end of the text, a carriage return before
the line feed belongs to the line ending, and an empty line at the very end is none. -/
def lines (s : List Char) : List (List Char) :=
  let pieces := split '\n' s
  let ended := pieces.dropLast.map dropReturn
  match pieces.getLast? with
  | some [] => ended
  | some last => ended ++ [last]
  | none => ended

/-- Joins pieces with a separator between neighbours. -/
def join (sep : List Char) : List (List Char) → List Char
  | [] => []
  | [piece] => piece
  | piece :: pieces => piece ++ sep ++ join sep pieces

/-- Every line with a line feed after it. -/
def unlines (ls : List String) : String := .join (ls.map (· ++ "\n"))

theorem split_ne_nil (sep : Char) (s : List Char) : split sep s ≠ [] := by
  cases s with
  | nil => simp [split]
  | cons c rest =>
    unfold split
    split
    · simp
    · split <;> simp

theorem join_split (sep : Char) (s : List Char) : join [sep] (split sep s) = s := by
  induction s with
  | nil => rfl
  | cons c rest ih =>
    cases hs : split sep rest with
    | nil => exact absurd hs (split_ne_nil sep rest)
    | cons piece pieces =>
      rw [hs] at ih
      by_cases hc : c = sep
      · simp [split, hc, hs, join, ih]
      · cases pieces with
        | nil => simpa [split, hc, hs, join] using ih
        | cons p ps => simpa [split, hc, hs, join] using ih

end RosRecipes.Text
