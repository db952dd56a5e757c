import RosRecipes.Text.Search

/-!
# Character references

A text between markup, or the value of an attribute, may name characters: `&lt;`, `&gt;`, `&amp;`, `&apos;`,
`&quot;`, and by number as `&#65;` or `&#x41;`.  Every ampersand has to begin such a reference.

* `expand?` puts the characters into the place of their references.
-/

namespace RosRecipes.Xml

/-- The value of a digit in a base up to 16. -/
def digit? (base : Nat) (c : Char) : Option Nat :=
  let value? :=
    if c.isDigit then some (c.toNat - '0'.toNat)
    else if 'a' ≤ c ∧ c ≤ 'f' then some (c.toNat - 'a'.toNat + 10)
    else if 'A' ≤ c ∧ c ≤ 'F' then some (c.toNat - 'A'.toNat + 10)
    else none
  value?.filter (· < base)

/-- The number that digits write; no digits write zero. -/
def number? (base : Nat) (digits : List Char) : Option Nat :=
  digits.foldlM (fun n c => (digit? base c).map (base * n + ·)) 0

/-- The character with a given number; there is none for zero, for surrogates and beyond U+10FFFF. -/
def character? (n : Nat) : Option Char := if n ≠ 0 ∧ n.isValidChar then some (.ofNat n) else none

/-- The most digits that a reference may have. -/
def maxDigits (base : Nat) : Nat := if base = 16 then 6 else 7

private def numbered? (base : Nat) (digits : List Char) : Option Char :=
  if maxDigits base < digits.length then none else (number? base digits).bind character?

/-- The character that a name between `&` and `;` stands for. -/
def entity? (name : List Char) : Option Char :=
  match name with
  | '#' :: 'x' :: digits => numbered? 16 digits
  | '#' :: digits => numbered? 10 digits
  | _ =>
    match String.ofList name with
    | "lt" => some '<'
    | "gt" => some '>'
    | "amp" => some '&'
    | "apos" => some '\''
    | "quot" => some '"'
    | _ => none

/-- Expands the references of a text; `name` holds the begun one, reversed. -/
private def expandFrom? : Option (List Char) → List Char → Option (List Char)
  | none, [] => some []
  | some _, [] => none
  | none, c :: rest => if c = '&' then expandFrom? (some []) rest else (expandFrom? none rest).map (c :: ·)
  | some name, c :: rest =>
    if c = '&' then none
    else if c = ';' then do
      let character ← entity? name.reverse
      return character :: (← expandFrom? none rest)
    else expandFrom? (some (c :: name)) rest

/-- The text with the references expanded; `none` if an ampersand begins no reference. -/
def expand? (s : List Char) : Option (List Char) := expandFrom? none s

end RosRecipes.Xml
