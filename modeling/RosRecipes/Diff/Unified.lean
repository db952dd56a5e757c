import RosRecipes.Diff.Shortest
import RosRecipes.Diff.Sliding
import RosRecipes.Text.Blank
import RosRecipes.Text.Search

/-!
# Unified diffs

A diff shows the lines that two texts do not share in hunks, each with up to three shared lines around it.
Changes that are no more than twice as far apart share a hunk.

* `linesOf` cuts a text into lines that keep their endings,
* `hunks` gives the hunks between two lists of lines, `patch` the patch between two texts,
* `unified` is that patch under other names.
-/

namespace RosRecipes.Diff

/-- A line with its ending, which only the last line may lack. -/
abbrev Line := List Char

/-- The lines of a text. -/
def linesOf (text : List Char) : List Line :=
  match text with
  | [] => []
  | c :: rest =>
    if c = '\n' then [c] :: linesOf rest
    else match linesOf rest with
      | [] => [[c]]
      | line :: lines => (c :: line) :: lines

/-- The lines of a text, put together, are the text. -/
theorem flatten_linesOf (text : List Char) : (linesOf text).flatten = text := by
  induction text with
  | nil => rfl
  | cons c rest ih =>
    unfold linesOf
    split
    · simp [ih]
    · cases h : linesOf rest with
      | nil => simp_all
      | cons line lines => simpa [h] using ih

/-- The number of shared lines around a change. -/
def context : Nat := 3

/-- A part of a diff. -/
structure Hunk where
  /-- The number of lines before the hunk in the first text. -/
  oldStart : Nat
  /-- The number of lines before the hunk in the second text. -/
  newStart : Nat
  lines : List (Kind × Line)
deriving DecidableEq, Repr

/-- Lines of one kind. -/
def ofKind (kind : Kind) (lines : List Line) : List (Kind × Line) := lines.map (kind, ·)

/-- The lines of a change: first what is removed, then what is inserted. -/
def Change.lines (c : Change Line) : List (Kind × Line) := ofKind .remove c.removed ++ ofKind .insert c.inserted

/-- Does a change share the hunk of the one before it?  At the end of the first text the gap may be a line longer. -/
def joins (c : Change Line) (later : List (Change Line)) (tail : List Line) : Bool :=
  c.gap.length < 2 * context ||
    (c.gap.length == 2 * context && c.removed.isEmpty && later.isEmpty && tail.isEmpty)

/-- The changes that share the hunk of the one before them, and those after them. -/
def sameHunk (tail : List Line) : List (Change Line) → List (Change Line) × List (Change Line)
  | [] => ([], [])
  | c :: cs =>
    if joins c cs tail then
      let (same, later) := sameHunk tail cs
      (c :: same, later)
    else ([], c :: cs)

theorem length_sameHunk (tail : List Line) (cs : List (Change Line)) : (sameHunk tail cs).2.length ≤ cs.length := by
  induction cs with
  | nil => simp [sameHunk]
  | cons c cs ih =>
    unfold sameHunk
    split
    · simpa using Nat.le_succ_of_le ih
    · simp

/-- The hunks of the changes after some lines of both texts. -/
def hunksFrom (old new : Nat) (tail : List Line) : List (Change Line) → List Hunk
  | [] => []
  | c :: cs =>
    let same := (sameHunk tail cs).1
    let later := (sameHunk tail cs).2
    let skipped := c.gap.length - context
    let body := c.lines ++ same.flatMap fun c => ofKind .keep c.gap ++ c.lines
    let after := (later.head?.map (·.gap)).getD tail
    let hunk : Hunk := {
      oldStart := old + skipped
      newStart := new + skipped
      lines := ofKind .keep (c.gap.drop skipped) ++ body ++ ofKind .keep (after.take context) }
    let passed := fun (kind : Kind) => c.gap.length + (body.filter fun (k, _) => k ≠ kind).length
    hunk :: hunksFrom (old + passed .insert) (new + passed .remove) tail later
termination_by cs => cs.length
decreasing_by
  exact Nat.lt_succ_of_le (length_sameHunk tail cs)

/-- The hunks between two lists of lines. -/
def hunks (old new : List Line) : List Hunk :=
  let (changes, tail) := (compact (shortest old new)).changes
  hunksFrom 0 0 tail changes

/-! ### Text -/

/-- A range of lines: its first line, counted from one, and its length if that is not one; an empty range is
shown by the line before it. -/
def showRange (start length : Nat) : String :=
  let first := toString (if length = 0 then start else start + 1)
  if length = 1 then first else first ++ "," ++ toString length

/-- The number of lines of a hunk that are not of a kind. -/
def Hunk.lengthWithout (h : Hunk) (kind : Kind) : Nat := (h.lines.filter fun (k, _) => k ≠ kind).length

def Hunk.header (h : Hunk) : String :=
  "@@ -" ++ showRange h.oldStart (h.lengthWithout .insert) ++ " +" ++
    showRange h.newStart (h.lengthWithout .remove) ++ " @@"

/-- The mark of a line. -/
def mark : Kind → Char
  | .keep => ' '
  | .remove => '-'
  | .insert => '+'

/-- What follows a line without an ending. -/
def note : String := "\\ No newline at end of file"

/-- A line of a hunk without its line feed, after its mark; an empty shared line has no mark. -/
def showLine : Kind × Line → List String
  | (.keep, ['\n']) => [""]
  | (kind, line) =>
    let ended := line.getLast? = some '\n'
    .ofList (mark kind :: if ended then line.dropLast else line) :: if ended then [] else [note]

def Hunk.render (h : Hunk) : List String := h.header :: h.lines.flatMap showLine

/-- The patch from a text to another one; the names stand for those of the files. -/
def patch (old new : String) : String :=
  let hunks := hunks (linesOf old.toList) (linesOf new.toList)
  Text.unlines ("--- original" :: "+++ modified" :: hunks.flatMap Hunk.render)

/-- Does a line of a patch name one of the files? -/
def isName (line : List Char) : Bool :=
  Text.startsWith "--- ".toList line || Text.startsWith "+++ ".toList line

/-- The patch from a text to another one, under the names of both. -/
def unified (oldName newName old new : String) : String :=
  let hunks := (Text.lines (patch old new).toList).dropWhile isName
  "--- " ++ oldName ++ "\n+++ " ++ newName ++ "\n" ++ .ofList (Text.join ['\n'] hunks)

end RosRecipes.Diff
