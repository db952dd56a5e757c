import RosRecipes.Condition.Token
import RosRecipes.Proofs.Text.Split

/-!
# Lexemes of a condition

A lexeme is a token as it is written; a literal may be written as a bare word, or between quotes of either kind.  A
text is laid out in lexemes if it consists of lexemes with nothing but blanks around them, and no lexeme could go on
in what follows it (`Laid`).

* `Token.scanFrom_written`: what is laid out is cut into the tokens of its lexemes, whatever follows.
* `laidUp`: every text is laid out in lexemes up to its end, or up to a character that starts no token.
* `scanned_iff_written` is about whole texts, cut or refused.
-/

namespace RosRecipes.Condition

/-! ### Lexemes -/

def Comparison.text : Comparison → List Char
  | .eq => ['=', '=']
  | .ne => ['!', '=']
  | .lt => ['<']
  | .le => ['<', '=']
  | .gt => ['>']
  | .ge => ['>', '=']

/-- A token as it is written. -/
inductive Lexeme where
  | opening
  | closing
  | and
  | or
  | comparison (sign : Comparison)
  | variable (name : List Char)
  /-- A literal without quotes. -/
  | word (text : List Char)
  /-- A literal between two quotes of one kind. -/
  | quoted (quote : Char) (text : List Char)
deriving DecidableEq, Repr

namespace Lexeme

def text : Lexeme → List Char
  | .opening => ['(']
  | .closing => [')']
  | .and => ['a', 'n', 'd']
  | .or => ['o', 'r']
  | .comparison sign => sign.text
  | .variable name => '$' :: name
  | .word text => text
  | .quoted quote text => quote :: (text ++ [quote])

def token : Lexeme → Token
  | .opening => .opening
  | .closing => .closing
  | .and => .and
  | .or => .or
  | .comparison sign => .comparison sign
  | .variable name => .atom (.variable (.ofList name))
  | .word text => .atom (.literal (.ofList text))
  | .quoted _ text => .atom (.literal (.ofList text))

/-- Some word characters, and nothing else. -/
def IsRun (s : List Char) : Prop := s ≠ [] ∧ ∀ c ∈ s, isWordCharacter c = true

/-- A name is a run of word characters, a bare word is one that is no keyword, and a quoted text lacks its quote. -/
def Valid : Lexeme → Prop
  | .variable name => IsRun name
  | .word text => IsRun text ∧ text ≠ Lexeme.and.text ∧ text ≠ Lexeme.or.text
  | .quoted quote text => (quote = '"' ∨ quote = '\'') ∧ quote ∉ text
  | _ => True

/-- The lexeme does not go on in what follows: a run of word characters ends before another character, and a sign
that could have an equals sign after it ends before something else. -/
def EndsBefore (rest : List Char) : Lexeme → Prop
  | .and | .or | .variable _ | .word _ => ∀ c, rest.head? = some c → isWordCharacter c = false
  | .comparison .lt | .comparison .gt => rest.head? ≠ some '='
  | _ => True

end Lexeme

open Lexeme (IsRun)

variable {c : Char} {s name rest after lead gap : List Char} {l : Lexeme} {offset : Nat} {token : Token}

private theorem toNat_of_isWordCharacter (h : isWordCharacter c = true) : 33 ≤ c.toNat ∧ c.toNat ≤ 122 := by
  have hupper (hc : c.isUpper = true) : 65 ≤ c.toNat ∧ c.toNat ≤ 90 := of_decide_eq_true hc
  have hlower (hc : c.isLower = true) : 97 ≤ c.toNat ∧ c.toNat ≤ 122 :=
    (Bool.and_eq_true_iff.1 hc).imp of_decide_eq_true of_decide_eq_true
  have hdigit (hc : c.isDigit = true) : 48 ≤ c.toNat ∧ c.toNat ≤ 57 :=
    (Bool.and_eq_true_iff.1 hc).imp of_decide_eq_true of_decide_eq_true
  have hcases : ((c.isAlphanum = true ∨ c = '_') ∨ c = '-') ∨ c = '.' := by
    simpa only [isWordCharacter, Bool.or_eq_true, beq_iff_eq] using h
  rcases hcases with ((h | rfl) | rfl) | rfl
  · rcases (Bool.or_eq_true_iff.1 h).imp_left Bool.or_eq_true_iff.1 with (h | h) | h
    · have := hupper h
      omega
    · have := hlower h
      omega
    · have := hdigit h
      omega
  all_goals decide

theorem isBlank_of_isWordCharacter (h : isWordCharacter c = true) : Text.isBlank c = false := by
  have hrange := toNat_of_isWordCharacter h
  simp only [Text.isBlank, Bool.or_eq_false_iff, Bool.and_eq_false_iff, decide_eq_false_iff_not, beq_eq_false_iff_ne]
  omega

/-- No lexeme goes on with anything but a word character or an equals sign. -/
private theorem ends_of_forall (h : ∀ c, rest.head? = some c → isWordCharacter c = false ∧ c ≠ '=') (l : Lexeme) :
    l.EndsBefore rest := by
  match l with
  | .and | .or | .variable _ | .word _ => exact fun c hc => (h c hc).1
  | .comparison .lt | .comparison .gt => exact fun hc => (h '=' hc).2 rfl
  | .comparison .eq | .comparison .ne | .comparison .le | .comparison .ge => trivial
  | .opening | .closing | .quoted _ _ => trivial

private theorem blank_ends (hc : Text.isBlank c = true) (l : Lexeme) : l.EndsBefore (c :: rest) := by
  refine ends_of_forall (fun d hd => ?_) l
  cases hd
  constructor
  · refine Bool.eq_false_iff.2 fun hword => ?_
    rw [isBlank_of_isWordCharacter hword] at hc
    cases hc
  · rintro rfl
    revert hc
    decide

private theorem ends_nil (l : Lexeme) : l.EndsBefore [] := by
  refine ends_of_forall (fun c hc => ?_) l
  cases hc

private theorem ends_of_head? {rest' : List Char} (h : l.EndsBefore rest) (hhead : rest'.head? = rest.head?) :
    l.EndsBefore rest' := by
  match l with
  | .and | .or | .variable _ | .word _ => exact fun c hc => h c (hhead ▸ hc)
  | .comparison .lt | .comparison .gt => exact fun hc => h (hhead ▸ hc)
  | .comparison .eq | .comparison .ne | .comparison .le | .comparison .ge => trivial
  | .opening | .closing | .quoted _ _ => trivial

/-! ### One token -/

private theorem run_exact (hname : ∀ c ∈ name, isWordCharacter c = true)
    (hrest : ∀ c, rest.head? = some c → isWordCharacter c = false) :
    (name ++ rest).takeWhile isWordCharacter = name ∧ (name ++ rest).dropWhile isWordCharacter = rest := by
  have hstop : rest.takeWhile isWordCharacter = [] ∧ rest.dropWhile isWordCharacter = rest := by
    cases rest with
    | nil => exact ⟨rfl, rfl⟩
    | cons c rest => simp [hrest c rfl]
  rw [List.takeWhile_append_of_pos hname, List.dropWhile_append_of_pos hname, hstop.1, hstop.2, List.append_nil]
  exact ⟨rfl, rfl⟩

private theorem first_word (hc : isWordCharacter c = true) :
    Token.first offset c rest =
      .ok (.ofWord (c :: rest.takeWhile isWordCharacter), rest.dropWhile isWordCharacter) := by
  have hne : ∀ d, isWordCharacter d = false → c ≠ d := by
    rintro d hd rfl
    rw [hc] at hd
    cases hd
  have hsign : ¬ startsComparison c = true := by
    intro hsign
    simp only [startsComparison, Bool.or_eq_true, beq_iff_eq] at hsign
    rcases hsign with ((rfl | rfl) | rfl) | rfl <;> exact absurd hc (by decide)
  have hquote : ¬ (c = '"' || c = '\'') = true := by
    simp [hne '"' (by decide), hne '\'' (by decide)]
  unfold Token.first
  rw [if_neg (hne '(' (by decide)), if_neg (hne ')' (by decide)), if_neg hsign, if_neg hquote,
    if_neg (hne '$' (by decide)), if_pos hc]

private theorem first_quote (hc : c = '"' ∨ c = '\'') :
    Token.first offset c rest =
      match rest.dropWhile (· ≠ c) with
      | [] => .error .unterminatedText
      | _ :: after => .ok (.atom (.literal (.ofList (rest.takeWhile (· ≠ c)))), after) := by
  rcases hc with rfl | rfl <;> rfl

/-- A sign stands alone unless an equals sign follows. -/
private theorem first_alone (hc : startsComparison c = true) (hrest : rest.head? ≠ some '=') :
    Token.first offset c rest =
      match Comparison.alone? c with
      | some sign => .ok (.comparison sign, rest)
      | none => .error (.unexpectedCharacter c offset) := by
  simp only [startsComparison, Bool.or_eq_true, beq_iff_eq] at hc
  cases rest with
  | nil => rcases hc with ((rfl | rfl) | rfl) | rfl <;> rfl
  | cons d rest =>
    have hd : d ≠ '=' := fun h => hrest (congrArg some h)
    rcases hc with ((rfl | rfl) | rfl) | rfl <;> simp [Token.first, startsComparison, hd, Comparison.alone?]

private theorem first_withEquals (hc : startsComparison c = true) :
    Token.first offset c ('=' :: rest) =
      match Comparison.withEquals? c with
      | some sign => .ok (.comparison sign, rest)
      | none => .error (.unexpectedCharacter c offset) := by
  simp only [startsComparison, Bool.or_eq_true, beq_iff_eq] at hc
  rcases hc with ((rfl | rfl) | rfl) | rfl <;> rfl

private theorem first_dollar :
    Token.first offset '$' rest =
      if rest.takeWhile isWordCharacter = [] then .error (.missingVariableName offset)
      else .ok (.atom (.variable (.ofList (rest.takeWhile isWordCharacter))), rest.dropWhile isWordCharacter) := by
  simp [Token.first, startsComparison]

private theorem ofWord_of_keyword_ne (hand : s ≠ Lexeme.and.text) (hor : s ≠ Lexeme.or.text) :
    Token.ofWord s = .atom (.literal (.ofList s)) := by
  rw [Token.ofWord, if_neg (show s ≠ ['a', 'n', 'd'] from hand), if_neg (show s ≠ ['o', 'r'] from hor)]

/-- What begins with a lexeme is cut after it. -/
theorem Token.first_lexeme (hvalid : l.Valid) (hends : l.EndsBefore rest) :
    ∃ c tail, l.text = c :: tail ∧ Text.isBlank c = false ∧
      ∀ offset, Token.first offset c (tail ++ rest) = .ok (l.token, rest) := by
  have hrun : ∀ {word : List Char}, IsRun word → (∀ c, rest.head? = some c → isWordCharacter c = false) →
      ∃ c tail, word = c :: tail ∧ Text.isBlank c = false ∧
        ∀ offset, Token.first offset c (tail ++ rest) = .ok (.ofWord word, rest) := by
    intro word hword hstop
    obtain ⟨c, tail, rfl⟩ := List.exists_cons_of_ne_nil hword.1
    have hc := hword.2 c List.mem_cons_self
    have hexact := run_exact (fun d hd => hword.2 d (List.mem_cons_of_mem c hd)) hstop
    refine ⟨c, tail, rfl, isBlank_of_isWordCharacter hc, fun offset => ?_⟩
    rw [first_word hc, hexact.1, hexact.2]
  match l with
  | .opening => exact ⟨'(', [], rfl, by decide, fun _ => rfl⟩
  | .closing => exact ⟨')', [], rfl, by decide, fun _ => rfl⟩
  | .and => exact hrun ⟨List.cons_ne_nil _ _, List.all_eq_true.1 rfl⟩ hends
  | .or => exact hrun ⟨List.cons_ne_nil _ _, List.all_eq_true.1 rfl⟩ hends
  | .comparison sign =>
    cases sign with
    | eq => exact ⟨'=', ['='], rfl, by decide, fun _ => rfl⟩
    | ne => exact ⟨'!', ['='], rfl, by decide, fun _ => rfl⟩
    | le => exact ⟨'<', ['='], rfl, by decide, fun _ => rfl⟩
    | ge => exact ⟨'>', ['='], rfl, by decide, fun _ => rfl⟩
    | lt => exact ⟨'<', [], rfl, by decide, fun _ => first_alone rfl hends⟩
    | gt => exact ⟨'>', [], rfl, by decide, fun _ => first_alone rfl hends⟩
  | .variable name =>
    have hexact := run_exact hvalid.2 hends
    refine ⟨'$', name, rfl, by decide, fun offset => ?_⟩
    rw [first_dollar, hexact.1, hexact.2, if_neg hvalid.1]
    rfl
  | .word word =>
    obtain ⟨hword, hand, hor⟩ := hvalid
    rw [Lexeme.text, Lexeme.token, ← ofWord_of_keyword_ne hand hor]
    exact hrun hword hends
  | .quoted quote text =>
    obtain ⟨hquote, htext⟩ := hvalid
    refine ⟨quote, text ++ [quote], rfl, by rcases hquote with rfl | rfl <;> decide, fun offset => ?_⟩
    rw [List.append_assoc, List.singleton_append, first_quote hquote, Text.takeWhile_ne_append htext,
      Text.dropWhile_ne_append htext]
    rfl

private theorem head?_dropWhile_run {d : Char} (hd : (s.dropWhile isWordCharacter).head? = some d) :
    isWordCharacter d = false := by
  have hnot := List.head?_dropWhile_not isWordCharacter s
  rw [hd] at hnot
  exact hnot

private theorem mem_takeWhile_run : ∀ d ∈ s.takeWhile isWordCharacter, isWordCharacter d = true :=
  List.all_eq_true.1 List.all_takeWhile

/-- The text begins with a lexeme that gives the token and does not go on in what follows. -/
private def Begins (s : List Char) (token : Token) (after : List Char) : Prop :=
  ∃ l : Lexeme, l.Valid ∧ l.EndsBefore after ∧ l.token = token ∧ s = l.text ++ after

private theorem begins_sign (hc : startsComparison c = true) (h : Token.first offset c rest = .ok (token, after)) :
    Begins (c :: rest) token after := by
  have hsigns := hc
  simp only [startsComparison, Bool.or_eq_true, beq_iff_eq] at hsigns
  by_cases hequals : rest.head? = some '='
  · obtain ⟨rest, rfl⟩ := List.head?_eq_some_iff.1 hequals
    rw [first_withEquals hc] at h
    rcases hsigns with ((rfl | rfl) | rfl) | rfl <;> cases h
    · exact ⟨.comparison .eq, trivial, trivial, rfl, rfl⟩
    · exact ⟨.comparison .ne, trivial, trivial, rfl, rfl⟩
    · exact ⟨.comparison .le, trivial, trivial, rfl, rfl⟩
    · exact ⟨.comparison .ge, trivial, trivial, rfl, rfl⟩
  · rw [first_alone hc hequals] at h
    rcases hsigns with ((rfl | rfl) | rfl) | rfl <;> cases h
    · exact ⟨.comparison .lt, trivial, hequals, rfl, rfl⟩
    · exact ⟨.comparison .gt, trivial, hequals, rfl, rfl⟩

private theorem begins_quote (hc : c = '"' ∨ c = '\'') (h : Token.first offset c rest = .ok (token, after)) :
    Begins (c :: rest) token after := by
  rw [first_quote hc] at h
  have hall : rest.takeWhile (· ≠ c) ++ rest.dropWhile (· ≠ c) = rest := List.takeWhile_append_dropWhile
  have hnot := List.head?_dropWhile_not (· ≠ c) rest
  have htext : c ∉ rest.takeWhile (· ≠ c) := fun hmem => by simpa using List.all_eq_true.1 List.all_takeWhile c hmem
  cases hdrop : rest.dropWhile (· ≠ c) with
  | nil =>
    rw [hdrop] at h
    cases h
  | cons d after' =>
    rw [hdrop] at h hall hnot
    cases h
    have hd : d = c := by simpa using hnot
    refine ⟨.quoted c (rest.takeWhile (· ≠ c)), ⟨hc, htext⟩, trivial, rfl, ?_⟩
    rw [hd] at hall
    rw [Lexeme.text, List.cons_append, List.append_assoc, List.singleton_append, hall]

private theorem begins_dollar (h : Token.first offset '$' rest = .ok (token, after)) :
    Begins ('$' :: rest) token after := by
  rw [first_dollar] at h
  by_cases hname : rest.takeWhile isWordCharacter = []
  · rw [if_pos hname] at h
    cases h
  · rw [if_neg hname] at h
    cases h
    refine ⟨.variable (rest.takeWhile isWordCharacter), ⟨hname, mem_takeWhile_run⟩, ?_, rfl, ?_⟩
    · exact fun d hd => head?_dropWhile_run hd
    · exact congrArg ('$' :: ·) List.takeWhile_append_dropWhile.symm

private theorem begins_word (hc : isWordCharacter c = true) (h : Token.first offset c rest = .ok (token, after)) :
    Begins (c :: rest) token after := by
  rw [first_word hc] at h
  cases h
  have htext : c :: rest = c :: rest.takeWhile isWordCharacter ++ rest.dropWhile isWordCharacter :=
    congrArg (c :: ·) List.takeWhile_append_dropWhile.symm
  have hends : ∀ d, (rest.dropWhile isWordCharacter).head? = some d → isWordCharacter d = false :=
    fun d hd => head?_dropWhile_run hd
  by_cases hand : c :: rest.takeWhile isWordCharacter = Lexeme.and.text
  · rw [hand] at htext ⊢
    exact ⟨.and, trivial, hends, rfl, htext⟩
  by_cases hor : c :: rest.takeWhile isWordCharacter = Lexeme.or.text
  · rw [hor] at htext ⊢
    exact ⟨.or, trivial, hends, rfl, htext⟩
  · have hrun : IsRun (c :: rest.takeWhile isWordCharacter) :=
      ⟨List.cons_ne_nil _ _, List.forall_mem_cons.2 ⟨hc, mem_takeWhile_run⟩⟩
    exact ⟨.word _, ⟨hrun, hand, hor⟩, hends, (ofWord_of_keyword_ne hand hor).symm, htext⟩

/-- The characters by what begins with them. -/
private inductive Starts : Char → Prop
  | opening : Starts '('
  | closing : Starts ')'
  | sign {c : Char} (h : startsComparison c = true) : Starts c
  | quote {c : Char} (h : c = '"' ∨ c = '\'') : Starts c
  | dollar : Starts '$'
  | word {c : Char} (h : isWordCharacter c = true) : Starts c
  | nothing {c : Char} (h : ∀ offset rest, Token.first offset c rest = .error (.unexpectedCharacter c offset)) :
    Starts c

private theorem starts (c : Char) : Starts c := by
  by_cases hopening : c = '('
  · exact hopening ▸ .opening
  by_cases hclosing : c = ')'
  · exact hclosing ▸ .closing
  by_cases hsign : startsComparison c = true
  · exact .sign hsign
  by_cases hquote : c = '"' ∨ c = '\''
  · exact .quote hquote
  by_cases hdollar : c = '$'
  · exact hdollar ▸ .dollar
  by_cases hword : isWordCharacter c = true
  · exact .word hword
  refine .nothing fun offset rest => ?_
  have hquote' : ¬ (c = '"' || c = '\'') = true := by simpa using hquote
  unfold Token.first
  rw [if_neg hopening, if_neg hclosing, if_neg hsign, if_neg hquote', if_neg hdollar, if_neg hword]

/-- What is cut is a lexeme that does not go on in the rest. -/
theorem Token.exists_lexeme (h : Token.first offset c rest = .ok (token, after)) :
    ∃ l : Lexeme, l.Valid ∧ l.EndsBefore after ∧ l.token = token ∧ c :: rest = l.text ++ after := by
  cases starts c with
  | opening =>
    cases h
    exact ⟨.opening, trivial, trivial, rfl, rfl⟩
  | closing =>
    cases h
    exact ⟨.closing, trivial, trivial, rfl, rfl⟩
  | sign hsign => exact begins_sign hsign h
  | quote hquote => exact begins_quote hquote h
  | dollar => exact begins_dollar h
  | word hword => exact begins_word hword h
  | nothing hnothing =>
    rw [hnothing] at h
    cases h

/-- The character that a fault complains of, and its offset.  A variable without a name is a mere dollar sign. -/
def Fault.position? : Fault → Option (Char × Nat)
  | .unexpectedCharacter c offset => some (c, offset)
  | .missingVariableName offset => some ('$', offset)
  | _ => none

/-- What begins with no token is refused where it begins, unless it is a text without an end. -/
theorem Token.position?_of_first {fault : Fault} (h : Token.first offset c rest = .error fault) :
    fault.position? = some (c, offset) ∨ fault = .unterminatedText := by
  cases starts c with
  | opening => cases h
  | closing => cases h
  | sign hsign =>
    left
    by_cases hequals : rest.head? = some '='
    · obtain ⟨rest, rfl⟩ := List.head?_eq_some_iff.1 hequals
      rw [first_withEquals hsign] at h
      split at h <;> cases h
      rfl
    · rw [first_alone hsign hequals] at h
      split at h <;> cases h
      rfl
  | quote hquote =>
    right
    rw [first_quote hquote] at h
    split at h <;> cases h
    rfl
  | dollar =>
    left
    rw [first_dollar] at h
    split at h <;> cases h
    rfl
  | word hword =>
    rw [first_word hword] at h
    cases h
  | nothing hnothing =>
    rw [hnothing] at h
    cases h
    exact .inl rfl

/-! ### Layouts -/

/-- Blanks, and then lexemes with blanks after each. -/
def written (lead : List Char) (pieces : List (Lexeme × List Char)) : List Char :=
  lead ++ pieces.flatMap fun (l, gap) => l.text ++ gap

/-- Each is a lexeme, it does not go on in what follows, and the gaps are blank. -/
def Laid (rest : List Char) : List (Lexeme × List Char) → Prop
  | [] => True
  | (l, gap) :: pieces =>
    l.Valid ∧ l.EndsBefore (written gap pieces ++ rest) ∧ (∀ c ∈ gap, Text.isBlank c = true) ∧ Laid rest pieces

def tokensOf (pieces : List (Lexeme × List Char)) : List Token := pieces.map (·.1.token)

theorem written_cons (lead gap : List Char) (l : Lexeme) (pieces : List (Lexeme × List Char)) :
    written lead ((l, gap) :: pieces) = lead ++ (l.text ++ written gap pieces) := by
  simp [written]

variable {pieces : List (Lexeme × List Char)}

private theorem scanFrom_blanks (hlead : ∀ c ∈ lead, Text.isBlank c = true) :
    Token.scanFrom offset (lead ++ s) = Token.scanFrom (offset + Text.byteLength lead) s := by
  induction lead generalizing offset with
  | nil => rfl
  | cons c lead ih =>
    have hc := hlead c List.mem_cons_self
    rw [List.cons_append, Token.scanFrom, if_pos hc, ih fun d hd => hlead d (List.mem_cons_of_mem c hd),
      Text.byteLength_cons, Nat.add_assoc]

private theorem scanFrom_token (hc : Text.isBlank c = false) (h : Token.first offset c s = .ok (token, rest))
    (taken : List Char) (htaken : c :: s = taken ++ rest) :
    Token.scanFrom offset (c :: s) = (Token.scanFrom (offset + Text.byteLength taken) rest).map (token :: ·) := by
  have hsize : c.utf8Size + Text.byteLength s - Text.byteLength rest = Text.byteLength taken := by
    rw [← Text.byteLength_cons, htaken, Text.byteLength_append, Nat.add_sub_cancel]
  rw [Token.scanFrom, if_neg (by simp [hc])]
  split
  · next heq =>
    rw [h] at heq
    cases heq
  · next heq =>
    rw [h] at heq
    cases heq
    dsimp only
    rw [hsize]
    cases Token.scanFrom (offset + Text.byteLength taken) rest <;> rfl

private theorem scanFrom_fault {fault : Fault} (hc : Text.isBlank c = false)
    (h : Token.first offset c s = .error fault) : Token.scanFrom offset (c :: s) = .error fault := by
  rw [Token.scanFrom, if_neg (by simp [hc])]
  split
  · next heq =>
    rw [h] at heq
    cases heq
    rfl
  · next heq =>
    rw [h] at heq
    cases heq

/-- What is laid out is cut into the tokens of its lexemes, whatever follows. -/
theorem Token.scanFrom_written (offset : Nat) (hlead : ∀ c ∈ lead, Text.isBlank c = true) (h : Laid rest pieces) :
    Token.scanFrom offset (written lead pieces ++ rest) =
      (Token.scanFrom (offset + Text.byteLength (written lead pieces)) rest).map (tokensOf pieces ++ ·) := by
  -- Each token is cut at the offset that the text before it has reached.
  induction pieces generalizing lead offset with
  | nil =>
    have hwritten : written lead [] = lead := List.append_nil lead
    rw [hwritten, scanFrom_blanks hlead]
    cases Token.scanFrom (offset + Text.byteLength lead) rest <;> rfl
  | cons piece pieces ih =>
    obtain ⟨l, gap⟩ := piece
    obtain ⟨hvalid, hends, hgap, hlaid⟩ := h
    obtain ⟨c, tail, htext, hc, hfirst⟩ := Token.first_lexeme hvalid hends
    rw [written_cons, List.append_assoc, List.append_assoc, scanFrom_blanks hlead, htext, List.cons_append,
      scanFrom_token hc (hfirst _) l.text (by rw [htext]; rfl), ih _ hgap hlaid, ← htext,
      Text.byteLength_append, Text.byteLength_append, ← Nat.add_assoc, ← Nat.add_assoc]
    cases Token.scanFrom _ rest <;> rfl

/-- Nothing is left, or what is left begins with no token. -/
private def Stuck (offset : Nat) (rest : List Char) : Prop :=
  rest = [] ∨ ∃ c after fault, rest = c :: after ∧ Text.isBlank c = false ∧
    Token.first offset c after = .error fault

/-- The text is laid out as far as it can be cut. -/
private def LaidUp (offset : Nat) (s : List Char) : Prop :=
  ∃ lead pieces rest, s = written lead pieces ++ rest ∧ (∀ c ∈ lead, Text.isBlank c = true) ∧ Laid rest pieces ∧
    Stuck (offset + Text.byteLength (written lead pieces)) rest

private theorem laidUp_token (h : Token.first offset c s = .ok (token, after))
    (hafter : LaidUp (offset + (c.utf8Size + Text.byteLength s - Text.byteLength after)) after) :
    LaidUp offset (c :: s) := by
  obtain ⟨l, hvalid, hends, -, htext⟩ := Token.exists_lexeme h
  obtain ⟨gap, pieces, rest, rfl, hgap, hlaid, hstuck⟩ := hafter
  refine ⟨[], (l, gap) :: pieces, rest, ?_, nofun, ⟨hvalid, hends, hgap, hlaid⟩, ?_⟩
  · rw [htext, written_cons, List.nil_append, List.append_assoc]
  · rw [← Text.byteLength_cons, htext, Text.byteLength_append l.text, Nat.add_sub_cancel, Nat.add_assoc,
      ← Text.byteLength_append] at hstuck
    rw [written_cons, List.nil_append]
    exact hstuck

private theorem laidUp (offset : Nat) (s : List Char) : LaidUp offset s := by
  fun_induction Token.scanFrom offset s with
  | case1 offset => exact ⟨[], [], [], rfl, nofun, trivial, .inl rfl⟩
  | case2 offset c s hc ih =>
    obtain ⟨lead, pieces, rest, rfl, hlead, hlaid, hstuck⟩ := ih
    refine ⟨c :: lead, pieces, rest, rfl, List.forall_mem_cons.2 ⟨hc, hlead⟩, hlaid, ?_⟩
    rw [Nat.add_assoc, ← Text.byteLength_cons] at hstuck
    exact hstuck
  | case3 offset c s hc fault h =>
    exact ⟨[], [], c :: s, rfl, nofun, trivial, .inr ⟨c, s, fault, rfl, Bool.eq_false_iff.2 hc, h⟩⟩
  | case4 offset c s hc token after h size fault hfault ih => exact laidUp_token h ih
  | case5 offset c s hc token after h size tokens htokens ih => exact laidUp_token h ih

/-! ### Whole texts -/

/-- A layout stays one if what follows is cut off. -/
private theorem Laid.alone (h : Laid rest pieces) : Laid [] pieces := by
  induction pieces with
  | nil => trivial
  | cons piece pieces ih =>
    obtain ⟨l, gap⟩ := piece
    obtain ⟨hvalid, hends, hgap, hlaid⟩ := h
    refine ⟨hvalid, ?_, hgap, ih hlaid⟩
    rw [List.append_nil]
    cases hwritten : written gap pieces with
    | nil => exact ends_nil l
    | cons d more =>
      rw [hwritten] at hends
      exact ends_of_head? hends rfl

/-- Lexemes with blanks between them do not go on in each other. -/
private theorem laid_of_gaps (hpieces : ∀ p ∈ pieces, p.1.Valid ∧ ∀ c ∈ p.2, Text.isBlank c = true)
    (hgaps : ∀ p ∈ pieces.dropLast, p.2 ≠ []) : Laid [] pieces := by
  induction pieces with
  | nil => trivial
  | cons piece pieces ih =>
    obtain ⟨l, gap⟩ := piece
    obtain ⟨⟨hvalid, hgap⟩, hmore⟩ := List.forall_mem_cons.1 hpieces
    refine ⟨hvalid, ?_, hgap, ?_⟩
    · cases gap with
      | cons d gap => exact blank_ends (hgap d List.mem_cons_self) l
      | nil =>
        -- Only the last lexeme may have nothing after it.
        cases pieces with
        | nil => exact ends_nil l
        | cons next pieces => exact absurd rfl (hgaps (l, []) List.mem_cons_self)
    · refine ih hmore fun p hp => hgaps p ?_
      cases pieces with
      | nil => cases hp
      | cons next pieces => exact List.mem_cons_of_mem _ hp

theorem Token.scan_written (hlead : ∀ c ∈ lead, Text.isBlank c = true) (h : Laid [] pieces) :
    Token.scan (written lead pieces) = .ok (tokensOf pieces) := by
  have hscan := Token.scanFrom_written 0 hlead h
  rw [List.append_nil, Token.scanFrom] at hscan
  exact hscan.trans (congrArg Except.ok (List.append_nil _))

/-- A refused text is laid out up to the character that is refused. -/
theorem Token.exists_of_scan_error {fault : Fault} (h : Token.scan s = .error fault) :
    ∃ lead pieces c after, s = written lead pieces ++ c :: after ∧ (∀ c ∈ lead, Text.isBlank c = true) ∧
      Laid (c :: after) pieces ∧ Token.first (Text.byteLength (written lead pieces)) c after = .error fault := by
  obtain ⟨lead, pieces, rest, rfl, hlead, hlaid, hstuck⟩ := laidUp 0 s
  rw [Token.scan, Token.scanFrom_written 0 hlead hlaid, Nat.zero_add] at h
  rcases hstuck with rfl | ⟨c, after, fault', rfl, hc, hfirst⟩
  · rw [Token.scanFrom] at h
    cases h
  · rw [Nat.zero_add] at hfirst
    rw [scanFrom_fault hc hfirst] at h
    cases h
    exact ⟨lead, pieces, c, after, rfl, hlead, hlaid, hfirst⟩

theorem Token.exists_of_scan_ok {tokens : List Token} (h : Token.scan s = .ok tokens) :
    ∃ lead pieces, s = written lead pieces ∧ (∀ c ∈ lead, Text.isBlank c = true) ∧ Laid [] pieces ∧
      tokensOf pieces = tokens := by
  obtain ⟨lead, pieces, rest, rfl, hlead, hlaid, hstuck⟩ := laidUp 0 s
  rcases hstuck with rfl | ⟨c, after, fault, rfl, hc, hfirst⟩
  · rw [List.append_nil] at h ⊢
    rw [Token.scan_written hlead hlaid] at h
    exact ⟨lead, pieces, rfl, hlead, hlaid, Except.ok.inj h⟩
  · rw [Token.scan, Token.scanFrom_written 0 hlead hlaid, scanFrom_fault hc hfirst] at h
    cases h

/-- Cutting a text into tokens loses and invents nothing.  A text is cut just if it is laid out in lexemes, and then
into their tokens; lexemes that are written with blanks between them are cut into their tokens; and a text that is
refused at an offset is laid out up to that offset, what stands before is cut on its own into the tokens up to there,
and what stands there begins with no lexeme. -/
theorem scanned_iff_written :
    (∀ source tokens, Token.scan source = .ok tokens ↔
      ∃ lead pieces, source = written lead pieces ∧ (∀ c ∈ lead, Text.isBlank c = true) ∧ Laid [] pieces ∧
        tokensOf pieces = tokens) ∧
    (∀ lead pieces, (∀ c ∈ lead, Text.isBlank c = true) →
      (∀ p ∈ pieces, p.1.Valid ∧ ∀ c ∈ p.2, Text.isBlank c = true) → (∀ p ∈ pieces.dropLast, p.2 ≠ []) →
      Token.scan (written lead pieces) = .ok (tokensOf pieces)) ∧
    (∀ source fault c offset, Token.scan source = .error fault → fault.position? = some (c, offset) →
      ∃ lead pieces after, source = written lead pieces ++ c :: after ∧ (∀ c ∈ lead, Text.isBlank c = true) ∧
        Laid (c :: after) pieces ∧ offset = Text.byteLength (written lead pieces) ∧
        Token.scan (written lead pieces) = .ok (tokensOf pieces) ∧
        ∀ (l : Lexeme) rest, l.Valid → l.EndsBefore rest → c :: after ≠ l.text ++ rest) := by
  refine ⟨fun source tokens => ⟨Token.exists_of_scan_ok, ?_⟩, ?_, ?_⟩
  · rintro ⟨lead, pieces, rfl, hlead, hlaid, rfl⟩
    exact Token.scan_written hlead hlaid
  · exact fun lead pieces hlead hpieces hgaps => Token.scan_written hlead (laid_of_gaps hpieces hgaps)
  · intro source fault c offset h hposition
    obtain ⟨lead, pieces, c', after, rfl, hlead, hlaid, hfirst⟩ := Token.exists_of_scan_error h
    rcases Token.position?_of_first hfirst with hfirst' | rfl
    · rw [hposition] at hfirst'
      cases hfirst'
      refine ⟨lead, pieces, after, rfl, hlead, hlaid, rfl, Token.scan_written hlead hlaid.alone, ?_⟩
      intro l rest hvalid hends heq
      obtain ⟨d, tail, htext, -, hok⟩ := Token.first_lexeme hvalid hends
      rw [htext, List.cons_append] at heq
      cases heq
      rw [hok] at hfirst
      cases hfirst
    · cases hposition

/-- Keywords as parts of words, as names and in quotes, and a sign that is none after a longer character. -/
theorem scanned_android :
    Token.scan " android and\t$and !=\n'a \"or'".toList =
      .ok [.atom (.literal "android"), .and, .atom (.variable "and"), .comparison .ne, .atom (.literal "a \"or")] ∧
    Token.scan "'é' = 1".toList = .error (.unexpectedCharacter '=' 5) ∧
    ∃ lead pieces after, "'é' = 1".toList = written lead pieces ++ '=' :: after ∧
      5 = Text.byteLength (written lead pieces) ∧ Token.scan (written lead pieces) = .ok (tokensOf pieces) := by
  have hrefused : Token.scan "'é' = 1".toList = .error (.unexpectedCharacter '=' 5) := by
    have hsource : "'é' = 1".toList = written [] [(.quoted '\'' ['é'], [' '])] ++ ['=', ' ', '1'] := by
      simp [written, Lexeme.text]
    have hlaid : Laid ['=', ' ', '1'] [(.quoted '\'' ['é'], [' '])] :=
      ⟨⟨.inr rfl, by simp⟩, trivial, List.forall_mem_singleton.2 rfl, trivial⟩
    rw [hsource, Token.scan, Token.scanFrom_written 0 (List.forall_mem_nil _) hlaid, scanFrom_fault rfl rfl]
    rfl
  have hspaced := scanned_iff_written.2.1 [' '] [(.word "android".toList, [' ']), (.and, ['\t']),
    (.variable "and".toList, [' ']), (.comparison .ne, ['\n']), (.quoted '\'' "a \"or".toList, [])]
    (List.forall_mem_singleton.2 rfl) (by simp [Lexeme.Valid, IsRun, Lexeme.text]; decide) (by decide)
  refine ⟨hspaced, hrefused, ?_⟩
  obtain ⟨lead, pieces, after, hsource, -, -, hoffset, hscan, -⟩ := scanned_iff_written.2.2 _ _ _ _ hrefused rfl
  exact ⟨lead, pieces, after, hsource, hoffset, hscan⟩

end RosRecipes.Condition
