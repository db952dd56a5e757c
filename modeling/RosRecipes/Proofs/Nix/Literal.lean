import RosRecipes.Naming

/-!
# Reading text literals

What the Nix language reads after the opening quote of a literal (`Nix.read`).  A backslash stands for the character
after it or for a control character, two dollars stand for themselves, a dollar before a brace opens an interpolation,
and ends of lines become line feeds.

* The three replacements of `escape` are one pass (`escape_eq`), and what they put in can be taken out again
  (`unescape_escapeOnce`).
* An escaped text reads as itself, unless it has a carriage return (`escape_reads_back`).
* A text that is not escaped reads as itself just if it is plain (`read_self_iff`).
-/

namespace RosRecipes.Nix

variable {c : Char} {s t rest value : List Char}

/-! ### Reading -/

inductive Reading where
  /-- The literal has a value, and ends before the rest. -/
  | closed (value rest : List Char)
  | interpolation
  /-- There is no closing quote. -/
  | unclosed
deriving DecidableEq

/-- One more character of the value was read before. -/
def Reading.after (c : Char) : Reading → Reading
  | .closed value rest => .closed (c :: value) rest
  | .interpolation => .interpolation
  | .unclosed => .unclosed

namespace Reading

variable {reading : Reading} {d : Char}

theorem after_eq_closed : reading.after c = .closed value rest ↔ ∃ v, value = c :: v ∧ reading = .closed v rest := by
  cases reading with
  | closed v r =>
    constructor
    · intro h
      cases h
      exact ⟨v, rfl, rfl⟩
    · rintro ⟨_, rfl, h⟩
      cases h
      rfl
  | interpolation => simp [after]
  | unclosed => simp [after]

theorem after_eq_closed_cons :
    reading.after c = .closed (d :: value) rest ↔ d = c ∧ reading = .closed value rest := by
  simp [after_eq_closed, and_assoc]

end Reading

/-- What a backslash and a character stand for. -/
def unescaped : Char → Char
  | 'n' => '\n'
  | 'r' => '\r'
  | 't' => '\t'
  | c => c

/-- Reads a literal from after its opening quote. -/
def read : List Char → Reading
  | [] => .unclosed
  | '"' :: s => .closed [] s
  | '\\' :: c :: s => (read s).after (unescaped c)
  | '$' :: '\x7b' :: _ => .interpolation
  | '$' :: '$' :: s => ((read s).after '$').after '$'
  | '\r' :: '\n' :: s => (read s).after '\n'
  | '\r' :: s => (read s).after '\n'
  | c :: s => (read s).after c

attribute [local simp] read

/-- The characters that do not always stand for themselves. -/
def special : List Char := ['"', '\\', '$', '\r']

theorem read_cons (h : c ∉ special) : read (c :: s) = (read s).after c := by
  simp only [special, List.mem_cons, List.not_mem_nil, or_false, not_or] at h
  obtain ⟨hquote, hbackslash, hdollar, hreturn⟩ := h
  rw [read]
  · exact fun h => absurd h hquote
  · exact fun _ _ h => absurd h hbackslash
  · exact fun _ h => absurd h hdollar
  · exact fun _ h => absurd h hdollar
  · exact fun _ h => absurd h hreturn
  · exact fun h => absurd h hreturn

theorem read_escaped (h : c ∉ ['n', 'r', 't']) : read ('\\' :: c :: s) = (read s).after c := by
  simp only [List.mem_cons, List.not_mem_nil, or_false, not_or] at h
  obtain ⟨hn, hr, ht⟩ := h
  rw [read, unescaped]
  · exact fun h => absurd h hn
  · exact fun h => absurd h hr
  · exact fun h => absurd h ht

/-- A dollar stands for itself, unless it opens an interpolation or is the first of two. -/
theorem read_dollar (hbrace : s.head? ≠ some '\x7b') (hdollar : s.head? ≠ some '$') :
    read ('$' :: s) = (read s).after '$' := by
  rw [read]
  · decide
  · exact fun _ _ h => absurd h (by decide)
  · rintro _ - rfl
    exact hbrace rfl
  · rintro _ - rfl
    exact hdollar rfl
  · exact fun _ h => absurd h (by decide)
  · decide

/-- The end of a line reads as a line feed. -/
theorem exists_read_carriage (s : List Char) : ∃ t, read ('\r' :: s) = (read t).after '\n' := by
  by_cases hline : ∃ t, s = '\n' :: t
  · obtain ⟨t, rfl⟩ := hline
    exact ⟨t, by rw [read]⟩
  · refine ⟨s, ?_⟩
    rw [read]
    exact fun t h => hline ⟨t, h⟩

/-! ### Escaping -/

/-- Puts a backslash before every backslash, every quote, and every dollar before a brace, in one pass. -/
def escapeOnce : List Char → List Char
  | [] => []
  | '\\' :: s => '\\' :: '\\' :: escapeOnce s
  | '"' :: s => '\\' :: '"' :: escapeOnce s
  | '$' :: '\x7b' :: s => '\\' :: '$' :: '\x7b' :: escapeOnce s
  | c :: s => c :: escapeOnce s

private theorem head?_ne (h : ∀ t, s = c :: t → False) : s.head? ≠ some c := by
  intro hhead
  obtain ⟨t, ht⟩ := List.head?_eq_some_iff.1 hhead
  exact h t ht

private theorem replaceAll_cons_of_ne {first : Char} {others new : List Char} (h : c ≠ first) :
    Text.replaceAll first others new (c :: s) = c :: Text.replaceAll first others new s := by
  rw [Text.replaceAll, if_neg h]

private theorem replaceAll_append (first : Char) (others new s : List Char) :
    Text.replaceAll first others new (first :: (others ++ s)) = new ++ Text.replaceAll first others new s := by
  rw [Text.replaceAll, if_pos rfl]
  split
  · next hsome =>
    rw [Text.dropStart?_append] at hsome
    cases hsome
    rfl
  · next hnone =>
    rw [Text.dropStart?_append] at hnone
    cases hnone

private theorem replaceAll_char (first : Char) (new s : List Char) :
    Text.replaceAll first [] new (first :: s) = new ++ Text.replaceAll first [] new s :=
  replaceAll_append first [] new s

private theorem replaceAll_pair (first second : Char) (new s : List Char) :
    Text.replaceAll first [second] new (first :: second :: s) = new ++ Text.replaceAll first [second] new s :=
  replaceAll_append first [second] new s

private theorem replaceAll_pair_of_ne {first second : Char} (new : List Char) (h : s.head? ≠ some second) :
    Text.replaceAll first [second] new (first :: s) = first :: Text.replaceAll first [second] new s := by
  have hnone : Text.dropStart? [second] s = none := by
    cases s with
    | nil => rfl
    | cons c s => exact if_neg fun heq : second = c => h (congrArg some heq.symm)
  rw [Text.replaceAll, if_pos rfl]
  split
  · next hsome =>
    rw [hnone] at hsome
    cases hsome
  · rfl

/-- Doubling the backslashes puts no brace at the start. -/
private theorem head?_replaceAll_backslash (h : s.head? ≠ some '\x7b') :
    (Text.replaceAll '\\' [] ['\\', '\\'] s).head? ≠ some '\x7b' := by
  cases s with
  | nil => simp [Text.replaceAll]
  | cons c s =>
    by_cases hc : c = '\\'
    · rw [hc, replaceAll_char]
      simp
    · rw [replaceAll_cons_of_ne hc]
      exact h

theorem escapeOnce_eq (s : List Char) :
    Text.replaceAll '"' [] ['\\', '"'] (Text.replaceAll '$' ['\x7b'] ['\\', '$', '\x7b']
      (Text.replaceAll '\\' [] ['\\', '\\'] s)) = escapeOnce s := by
  fun_induction escapeOnce s with
  | case1 => simp [Text.replaceAll]
  | case2 s ih => simp [replaceAll_char, replaceAll_cons_of_ne, ih]
  | case3 s ih => simp [replaceAll_char, replaceAll_cons_of_ne, ih]
  | case4 s ih => simp [replaceAll_pair, replaceAll_cons_of_ne, ih]
  | case5 c s hbackslash hquote hopen ih =>
    rw [replaceAll_cons_of_ne hbackslash]
    by_cases hdollar : c = '$'
    · have hbrace : s.head? ≠ some '\x7b' := head?_ne fun t => hopen t hdollar
      rw [hdollar, replaceAll_pair_of_ne _ (head?_replaceAll_backslash hbrace), replaceAll_cons_of_ne (by decide), ih]
    · rw [replaceAll_cons_of_ne hdollar, replaceAll_cons_of_ne hquote, ih]

theorem escape_eq (s : String) : escape s = .ofList (escapeOnce s.toList) := by
  rw [← escapeOnce_eq]
  simp [escape, Text.replace]

/-- Takes out what `escapeOnce` puts in. -/
def unescape : List Char → List Char
  | [] => []
  | '\\' :: c :: s => c :: unescape s
  | c :: s => c :: unescape s

theorem unescape_escapeOnce (s : List Char) : unescape (escapeOnce s) = s := by
  fun_induction escapeOnce s with
  | case1 => rfl
  | case2 s ih => rw [unescape, ih]
  | case3 s ih => rw [unescape, ih]
  | case4 s ih =>
    rw [unescape, unescape, ih]
    nofun
  | case5 c s hbackslash hquote hopen ih =>
    rw [unescape, ih]
    exact fun _ _ h => absurd h hbackslash

theorem escape_injective : Function.Injective escape := by
  intro a b h
  rw [escape_eq, escape_eq, String.ofList_inj] at h
  rw [← String.toList_inj, ← unescape_escapeOnce a.toList, h, unescape_escapeOnce]

/-- In an escaped text, a dollar is read before the rest, even if it is the first of two. -/
private theorem read_dollar_escapeOnce (h : s.head? ≠ some '\x7b') (rest : List Char) :
    read ('$' :: (escapeOnce s ++ '"' :: rest)) = (read (escapeOnce s ++ '"' :: rest)).after '$' := by
  fun_induction escapeOnce s with
  | case1 => exact read_dollar (by simp) (by simp)
  | case2 s => exact read_dollar (by simp) (by simp)
  | case3 s => exact read_dollar (by simp) (by simp)
  | case4 s => exact read_dollar (by simp) (by simp)
  | case5 c s hbackslash hquote hopen ih =>
    by_cases hdollar : c = '$'
    · subst hdollar
      have hbrace : s.head? ≠ some '\x7b' := head?_ne fun t => hopen t rfl
      rw [List.cons_append, ih hbrace, read]
    · exact read_dollar h (by simpa using hdollar)

/-- Reading undoes escaping, unless there is a carriage return. -/
theorem read_escapeOnce_iff (s rest : List Char) :
    read (escapeOnce s ++ '"' :: rest) = .closed s rest ↔ '\r' ∉ s := by
  fun_induction escapeOnce s with
  | case1 => simp [read]
  | case2 s ih =>
    rw [List.cons_append, List.cons_append, read_escaped (by decide), Reading.after_eq_closed_cons, ih]
    simp
  | case3 s ih =>
    rw [List.cons_append, List.cons_append, read_escaped (by decide), Reading.after_eq_closed_cons, ih]
    simp
  | case4 s ih =>
    rw [List.cons_append, List.cons_append, List.cons_append, read_escaped (by decide), read_cons (by decide),
      Reading.after_eq_closed_cons, Reading.after_eq_closed_cons, ih]
    simp
  | case5 c s hbackslash hquote hopen ih =>
    rw [List.cons_append]
    by_cases hdollar : c = '$'
    · subst hdollar
      have hbrace : s.head? ≠ some '\x7b' := head?_ne fun t => hopen t rfl
      rw [read_dollar_escapeOnce hbrace, Reading.after_eq_closed_cons, ih]
      simp
    by_cases hcarriage : c = '\r'
    · subst hcarriage
      obtain ⟨u, hu⟩ := exists_read_carriage (escapeOnce s ++ '"' :: rest)
      rw [hu, Reading.after_eq_closed_cons]
      simp
    · have hspecial : c ∉ special := by
        simpa [special, hdollar, hcarriage] using ⟨hquote, hbackslash⟩
      rw [read_cons hspecial, Reading.after_eq_closed_cons, ih]
      simp [Ne.symm hcarriage]

/-- The escape of a text is made in one pass over it, and different texts have different escapes.  Between quotes it
reads as the text: the literal ends at its closing quote, whatever follows, and opens no interpolation.  That holds just
if there is no carriage return, since ends of lines become line feeds. -/
theorem escape_reads_back :
    (∀ s, escape s = .ofList (escapeOnce s.toList)) ∧ Function.Injective escape ∧
    ∀ (s : String) rest, read ((escape s).toList ++ '"' :: rest) = .closed s.toList rest ↔ '\r' ∉ s.toList := by
  refine ⟨escape_eq, escape_injective, fun s rest => ?_⟩
  rw [escape_eq, String.toList_ofList, read_escapeOnce_iff]

example : read ((escape "$$\x7b\\\"$").toList ++ ['"', ';']) = .closed "$$\x7b\\\"$".toList [';'] := by decide +kernel

/-! ### Plain texts -/

/-- An odd number of dollars stands before a brace. -/
def Opens (s : List Char) : Prop :=
  ∃ before n after, s = before ++ (List.replicate (2 * n + 1) '$' ++ '\x7b' :: after) ∧ before.getLast? ≠ some '$'

/-- Does the text open an interpolation? -/
def opens : List Char → Bool
  | '$' :: '\x7b' :: _ => true
  | '$' :: '$' :: s => opens s
  | _ :: s => opens s
  | [] => false

theorem opens_iff (s : List Char) : opens s = true ↔ Opens s := by
  fun_induction opens s with
  | case1 s => exact iff_of_true rfl ⟨[], 0, s, rfl, nofun⟩
  | case2 s ih =>
    rw [ih]
    constructor
    · rintro ⟨before, n, after, rfl, hlast⟩
      cases before with
      | nil => exact ⟨[], n + 1, after, rfl, nofun⟩
      | cons c before => exact ⟨'$' :: '$' :: c :: before, n, after, rfl, hlast⟩
    · rintro ⟨before, n, after, heq, hlast⟩
      match before with
      | [] =>
        cases n with
        | zero => cases heq
        | succ n => exact ⟨[], n, after, (List.cons.inj (List.cons.inj heq).2).2, nofun⟩
      | [c] =>
        obtain ⟨rfl, -⟩ := List.cons.inj heq
        exact absurd rfl hlast
      | [c, d] =>
        obtain ⟨rfl, -⟩ := List.cons.inj (List.cons.inj heq).2
        exact absurd rfl hlast
      | c :: d :: e :: before => exact ⟨e :: before, n, after, (List.cons.inj (List.cons.inj heq).2).2, hlast⟩
  | case3 c s hopen hpair ih =>
    rw [ih]
    constructor
    · rintro ⟨before, n, after, rfl, hlast⟩
      cases before with
      | nil => exact ⟨[c], n, after, rfl, fun h => hpair _ (Option.some.inj h) rfl⟩
      | cons d before => exact ⟨c :: d :: before, n, after, rfl, hlast⟩
    · rintro ⟨before, n, after, heq, hlast⟩
      match before with
      | [] =>
        obtain ⟨hc, hs⟩ := List.cons.inj heq
        cases n with
        | zero => exact (hopen _ hc hs).elim
        | succ n => exact (hpair _ hc hs).elim
      | [d] => exact ⟨[], n, after, (List.cons.inj heq).2, nofun⟩
      | d :: e :: before => exact ⟨e :: before, n, after, (List.cons.inj heq).2, hlast⟩
  | case4 =>
    refine iff_of_false Bool.false_ne_true ?_
    rintro ⟨before, n, after, heq, -⟩
    simp at heq

instance : DecidablePred Opens := fun s => decidable_of_iff _ (opens_iff s)

/-- The text can stand between quotes as it is. -/
structure IsPlain (s : List Char) : Prop where
  noQuote : '"' ∉ s
  noBackslash : '\\' ∉ s
  noCarriage : '\r' ∉ s
  noOpening : ¬ Opens s

theorem isPlain_iff : IsPlain s ↔ ('"' ∉ s ∧ '\\' ∉ s ∧ '\r' ∉ s) ∧ opens s = false := by
  rw [← Bool.not_eq_true, opens_iff]
  exact ⟨fun ⟨hquote, hbackslash, hcarriage, hopening⟩ => ⟨⟨hquote, hbackslash, hcarriage⟩, hopening⟩,
    fun ⟨⟨hquote, hbackslash, hcarriage⟩, hopening⟩ => ⟨hquote, hbackslash, hcarriage, hopening⟩⟩

instance : DecidablePred IsPlain := fun _ => decidable_of_iff _ isPlain_iff.symm

/-- A value and what is left after it are shorter than what they were read from. -/
theorem length_of_read (h : read t = .closed value rest) : value.length + rest.length < t.length := by
  have hafter : ∀ {s : List Char} {c : Char} {value : List Char},
      (∀ {value}, read s = .closed value rest → value.length + rest.length < s.length) →
      (read s).after c = .closed value rest → value.length + rest.length < s.length + 1 := by
    intro s c value ih h
    obtain ⟨v, rfl, hread⟩ := Reading.after_eq_closed.1 h
    have := ih hread
    rw [List.length_cons]
    omega
  fun_induction read t generalizing value with
  | case1 => cases h
  | case2 s =>
    cases h
    simp
  | case3 d s ih => exact Nat.lt_trans (hafter ih h) (by simp)
  | case4 s => cases h
  | case5 s ih =>
    obtain ⟨v, rfl, hread⟩ := Reading.after_eq_closed.1 h
    have := hafter ih hread
    simp only [List.length_cons]
    omega
  | case6 s ih => exact Nat.lt_trans (hafter ih h) (by simp)
  | case7 s hline ih => exact hafter ih h
  | case8 c s hquote hbackslash hopen hpair hline hcarriage ih => exact hafter ih h

private theorem head?_append_quote (h : s.head? ≠ some c) (hc : c ≠ '"') (rest : List Char) :
    (s ++ '"' :: rest).head? ≠ some c := by
  cases s with
  | nil => exact fun hhead => hc (Option.some.inj hhead).symm
  | cons d s => exact h

/-- A text reads as itself just if it is plain. -/
theorem read_self_iff (s rest : List Char) : read (s ++ '"' :: rest) = .closed s rest ↔ IsPlain s := by
  rw [isPlain_iff]
  fun_induction opens s with
  | case1 s => simp [read]
  | case2 s ih =>
    rw [List.cons_append, List.cons_append, read, Reading.after_eq_closed_cons, Reading.after_eq_closed_cons, ih]
    simp
  | case3 c s hopen hpair ih =>
    rw [List.cons_append]
    by_cases hspecial : c ∈ special
    · simp only [special, List.mem_cons, List.not_mem_nil, or_false] at hspecial
      rcases hspecial with rfl | rfl | rfl | rfl
      · simp [read]
      · -- What is left is too long for a value that starts with the backslash.
        refine iff_of_false (fun h => ?_) (by simp)
        have hne : s ++ '"' :: rest ≠ [] := List.append_ne_nil_of_right_ne_nil s (List.cons_ne_nil _ _)
        obtain ⟨d, u, hu⟩ := List.exists_cons_of_ne_nil hne
        rw [hu, read, Reading.after_eq_closed_cons] at h
        have hlength := congrArg List.length hu
        have := length_of_read h.2
        simp only [List.length_append, List.length_cons] at hlength
        omega
      · have hbrace := head?_append_quote (head?_ne fun t => hopen t rfl) (by decide) rest
        have hdollar := head?_append_quote (head?_ne fun t => hpair t rfl) (by decide) rest
        rw [read_dollar hbrace hdollar, Reading.after_eq_closed_cons, ih]
        simp
      · refine iff_of_false (fun h => ?_) (by simp)
        obtain ⟨u, hu⟩ := exists_read_carriage (s ++ '"' :: rest)
        rw [hu, Reading.after_eq_closed_cons] at h
        exact absurd h.1 (by decide)
    · rw [read_cons hspecial, Reading.after_eq_closed_cons, ih]
      simp only [special, List.mem_cons, List.not_mem_nil, or_false, not_or] at hspecial
      simp [Ne.symm hspecial.1, Ne.symm hspecial.2.1, Ne.symm hspecial.2.2.2]
  | case4 => simp [read]

end RosRecipes.Nix
