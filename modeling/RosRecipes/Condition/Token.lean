import RosRecipes.Text.Blank
import RosRecipes.Text.Utf8

/-!
# Tokens of a condition

A condition such as `$ROS_VERSION == 2 and $ROS_DISTRO != foxy` is cut into tokens: parentheses, the words
`and` and `or`, comparison signs, and atoms.  An atom is a variable, a bare word or a quoted text.  Blanks
separate tokens and are dropped.

* `Token.scan` cuts a text, or names the first character that starts no token.
-/

namespace RosRecipes.Condition

inductive Comparison where
  | eq
  | ne
  | lt
  | le
  | gt
  | ge
deriving DecidableEq, Repr

inductive Atom where
  | variable (name : String)
  | literal (text : String)
deriving DecidableEq, Repr

inductive Token where
  | opening
  | closing
  | and
  | or
  | comparison (sign : Comparison)
  | atom (atom : Atom)
deriving DecidableEq, Repr

/-- Why a text is no condition. -/
inductive Fault where
  | unexpectedCharacter (c : Char) (offset : Nat)
  | unterminatedText
  | missingVariableName (offset : Nat)
  | missingClosing
  | missingOperand
  | unexpectedToken
  | unexpectedEnd
  | trailingTokens
deriving DecidableEq, Repr

/-- The wording of a fault in the condition `source`. -/
def Fault.message (source : String) (fault : Fault) : String :=
  let what :=
    match fault with
    | .unexpectedCharacter c offset => "unexpected '" ++ String.singleton c ++ "' at offset " ++ toString offset
    | .unterminatedText => "unterminated string"
    | .missingVariableName offset => "missing variable name at offset " ++ toString offset
    | .missingClosing => "missing ')'"
    | .missingOperand => "expected operand after comparison operator"
    | .unexpectedToken => "unexpected token"
    | .unexpectedEnd => "unexpected end of expression"
    | .trailingTokens => "trailing tokens"
  what ++ " in \"" ++ source ++ "\""

/-- The characters of bare words and of variable names. -/
def isWordCharacter (c : Char) : Bool := c.isAlphanum || c == '_' || c == '-' || c == '.'

/-- The characters that comparison signs begin with. -/
def startsComparison (c : Char) : Bool := c == '=' || c == '!' || c == '<' || c == '>'

/-- The sign of a character that is followed by an equals sign. -/
def Comparison.withEquals? : Char → Option Comparison
  | '=' => some .eq
  | '!' => some .ne
  | '<' => some .le
  | '>' => some .ge
  | _ => none

/-- The sign of a character that stands alone. -/
def Comparison.alone? : Char → Option Comparison
  | '<' => some .lt
  | '>' => some .gt
  | _ => none

/-- A run of word characters: a keyword, or a literal. -/
def Token.ofWord (word : List Char) : Token :=
  if word = ['a', 'n', 'd'] then .and
  else if word = ['o', 'r'] then .or
  else .atom (.literal (.ofList word))

/-- The token that starts with the character `c`, and what follows it; `offset` counts the bytes before. -/
def Token.first (offset : Nat) (c : Char) (rest : List Char) : Except Fault (Token × List Char) :=
  if c = '(' then .ok (.opening, rest)
  else if c = ')' then .ok (.closing, rest)
  else if startsComparison c then
    let (sign, rest) :=
      match rest with
      | '=' :: after => (Comparison.withEquals? c, after)
      | _ => (Comparison.alone? c, rest)
    match sign with
    | some sign => .ok (.comparison sign, rest)
    | none => .error (.unexpectedCharacter c offset)
  else if c = '"' || c = '\'' then
    match rest.dropWhile (· ≠ c) with
    | [] => .error .unterminatedText
    | _ :: after => .ok (.atom (.literal (.ofList (rest.takeWhile (· ≠ c)))), after)
  else if c = '$' then
    let name := rest.takeWhile isWordCharacter
    if name.isEmpty then .error (.missingVariableName offset)
    else .ok (.atom (.variable (.ofList name)), rest.dropWhile isWordCharacter)
  else if isWordCharacter c then
    .ok (.ofWord (c :: rest.takeWhile isWordCharacter), rest.dropWhile isWordCharacter)
  else .error (.unexpectedCharacter c offset)

private theorem length_dropWhile_le (p : Char → Bool) (s : List Char) :
    (s.dropWhile p).length ≤ s.length := (List.dropWhile_sublist p).length_le

/-- A token takes at least its first character. -/
theorem Token.length_first {offset : Nat} {c : Char} {rest after : List Char} {token : Token}
    (h : Token.first offset c rest = .ok (token, after)) : after.length ≤ rest.length := by
  have hw := length_dropWhile_le isWordCharacter rest
  unfold Token.first at h
  split at h
  · cases h; exact Nat.le_refl _
  split at h
  · cases h; exact Nat.le_refl _
  split at h
  · dsimp only at h
    split at h
    · cases h
      split
      · simp
      · exact Nat.le_refl _
    · cases h
  split at h
  · split at h
    · cases h
    · next after' hd =>
      have := length_dropWhile_le (· ≠ c) rest
      rw [hd] at this
      cases h
      simp only [List.length_cons] at this
      omega
  split at h
  · dsimp only at h
    split at h
    · cases h
    · cases h; exact hw
  split at h
  · cases h; exact hw
  · cases h

/-- The tokens of a text, `offset` bytes of which have been cut. -/
def Token.scanFrom (offset : Nat) : List Char → Except Fault (List Token)
  | [] => .ok []
  | c :: rest =>
    if Text.isBlank c then Token.scanFrom (offset + c.utf8Size) rest
    else
      match _h : Token.first offset c rest with
      | .error e => .error e
      | .ok (token, after) =>
        let size := c.utf8Size + Text.byteLength rest - Text.byteLength after
        match Token.scanFrom (offset + size) after with
        | .error e => .error e
        | .ok tokens => .ok (token :: tokens)
termination_by s => s.length
decreasing_by
  · simp
  · have := Token.length_first _h
    simp only [List.length_cons]
    omega

/-- The tokens of a condition. -/
def Token.scan (source : List Char) : Except Fault (List Token) := Token.scanFrom 0 source

end RosRecipes.Condition
