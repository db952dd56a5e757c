/-!
# Finding and replacing

Occurrences of one text in another, scanned from the left without overlap.
-/

namespace RosRecipes.Text

/-- What follows a given start, if the text begins with it. -/
def dropStart? : List Char → List Char → Option (List Char)
  | [], s => some s
  | _ :: _, [] => none
  | p :: ps, c :: cs => if p = c then dropStart? ps cs else none

/-- Does the text begin with `start`? -/
def startsWith (start s : List Char) : Bool := (dropStart? start s).isSome

/-- Does the text end with `tail`? -/
def endsWith (tail s : List Char) : Bool := startsWith tail.reverse s.reverse

/-- Does `part` occur in the text? -/
def contains (part : List Char) : List Char → Bool
  | [] => part.isEmpty
  | c :: cs => startsWith part (c :: cs) || contains part cs

/-- The text before and after the last occurrence of `part`. -/
def splitLast? (part : List Char) : List Char → Option (List Char × List Char)
  | [] => if part.isEmpty then some ([], []) else none
  | c :: cs =>
    match splitLast? part cs with
    | some (before, after) => some (c :: before, after)
    | none => (dropStart? part (c :: cs)).map ([], ·)

theorem eq_of_dropStart? {start s rest : List Char} (h : dropStart? start s = some rest) :
    s = start ++ rest := by
  induction start generalizing s with
  | nil => simpa [dropStart?] using h
  | cons p ps ih =>
    cases s with
    | nil => simp [dropStart?] at h
    | cons c cs =>
      simp only [dropStart?] at h
      split at h
      · next hp => rw [hp, ih h]; rfl
      · cases h

theorem dropStart?_append (start rest : List Char) : dropStart? start (start ++ rest) = some rest := by
  induction start with
  | nil => rfl
  | cons p ps ih => simp [dropStart?, ih]

theorem length_of_dropStart? {start s rest : List Char} (h : dropStart? start s = some rest) :
    s.length = start.length + rest.length := by
  rw [eq_of_dropStart? h, List.length_append]

/-- Replaces every occurrence of `first :: others` by `new`, from left to right and without overlap. -/
def replaceAll (first : Char) (others new : List Char) : List Char → List Char
  | [] => []
  | c :: cs =>
    if c = first then
      match _h : dropStart? others cs with
      | some rest => new ++ replaceAll first others new rest
      | none => c :: replaceAll first others new cs
    else c :: replaceAll first others new cs
termination_by s => s.length
decreasing_by
  · have := length_of_dropStart? _h
    simp only [List.length_cons]
    omega
  all_goals simp

/-- Replaces every occurrence of a non-empty text; the empty text is replaced nowhere. -/
def replace (old new : String) (s : String) : String :=
  match old.toList with
  | [] => s
  | first :: others => .ofList (replaceAll first others new.toList s.toList)

/-- Lower case of the ASCII letters; all other characters stay. -/
def asciiLower (s : String) : String := .ofList (s.toList.map Char.toLower)

end RosRecipes.Text
