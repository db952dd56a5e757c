import Mathlib.Data.List.Infix
import Mathlib.Data.List.TakeWhile
import RosRecipes.Proofs.Text.Split
import RosRecipes.Xml.Event

/-!
# Spelling of markup

What stands between angle brackets, brackets included, and what it means (`Spells`).  Quoted values in a tag may hold
closing brackets, comments and literal sections end at the first mark that ends them, and the brackets of a document
type are balanced.  Closing tags and instructions may lack their last bracket at the very end of a document.

Reading markup finds what is spelled, and nothing else (`readMarkup?_eq_some_iff`).
-/

namespace RosRecipes.Xml

variable {s rest after body content before : List Char}

/-! ### Cutting -/

theorem cutAt_eq_iff {stop : Char} :
    cutAt stop s = (content, rest) ↔ stop ∉ content ∧ (s = content ++ stop :: rest ∨ s = content ∧ rest = []) := by
  have hsplit : s.takeWhile (· ≠ stop) ++ s.dropWhile (· ≠ stop) = s := List.takeWhile_append_dropWhile
  have hstop : stop ∉ s.takeWhile (· ≠ stop) := by
    intro hmem
    have hne := List.mem_takeWhile_imp hmem
    simp at hne
  unfold cutAt
  rw [Prod.mk.injEq]
  constructor
  · rintro ⟨rfl, rfl⟩
    refine ⟨hstop, ?_⟩
    cases hdrop : s.dropWhile (· ≠ stop) with
    | nil =>
      rw [hdrop, List.append_nil] at hsplit
      exact .inr ⟨hsplit.symm, rfl⟩
    | cons c rest =>
      have hc : c = stop := by
        have := List.head?_dropWhile_not (· ≠ stop) s
        rw [hdrop] at this
        simpa using this
      rw [hdrop, hc] at hsplit
      exact .inl hsplit.symm
  · rintro ⟨hcontent, hs⟩
    rcases hs with rfl | ⟨rfl, rfl⟩
    · rw [Text.takeWhile_ne_append hcontent, Text.dropWhile_ne_append hcontent]
      exact ⟨rfl, rfl⟩
    · have hall : ∀ c ∈ s, decide (c ≠ stop) = true := fun c hc => decide_eq_true (ne_of_mem_of_not_mem hc hcontent)
      rw [List.takeWhile_eq_self_iff.2 hall, List.dropWhile_eq_nil_iff.2 hall]
      exact ⟨rfl, rfl⟩

/-- The cut is at the first bracket where `done` holds of what stands before it. -/
theorem cutWhen?_eq_some_iff {done : List Char → Bool} :
    cutWhen? done before s = some (content, rest) ↔ ∃ body, content = before.reverse ++ body ∧ s = body ++ '>' :: rest ∧
      done (body.reverse ++ before) = true ∧
      ∀ first second, body = first ++ '>' :: second → done (first.reverse ++ before) = false := by
  induction s generalizing before with
  | nil => exact ⟨nofun, fun ⟨body, _, h, _⟩ => by simp at h⟩
  | cons c s ih =>
    rw [cutWhen?]
    by_cases hcut : c = '>' ∧ done before = true
    · rw [if_pos (by simpa using hcut)]
      obtain ⟨rfl, hdone⟩ := hcut
      constructor
      · rintro ⟨⟩
        exact ⟨[], (List.append_nil _).symm, rfl, hdone, fun first second h => by simp at h⟩
      · rintro ⟨body, rfl, hs, -, hfirst⟩
        cases body with
        | nil =>
          cases hs
          simp
        | cons d body =>
          obtain ⟨rfl, rfl⟩ := List.cons.inj hs
          have hnot : done before = false := hfirst [] body rfl
          rw [hnot] at hdone
          cases hdone
    · rw [if_neg (by simpa using hcut), ih]
      constructor
      · rintro ⟨body, rfl, rfl, hdone, hfirst⟩
        refine ⟨c :: body, by simp, rfl, by simpa using hdone, fun first second h => ?_⟩
        cases first with
        | nil =>
          obtain ⟨rfl, -⟩ := List.cons.inj h
          exact Bool.eq_false_iff.2 fun hd => hcut ⟨rfl, hd⟩
        | cons d first =>
          obtain ⟨rfl, hbody⟩ := List.cons.inj h
          simpa using hfirst first second hbody
      · rintro ⟨body, rfl, hs, hdone, hfirst⟩
        cases body with
        | nil =>
          obtain ⟨rfl, rfl⟩ := List.cons.inj hs
          exact absurd ⟨rfl, hdone⟩ hcut
        | cons d body =>
          obtain ⟨rfl, rfl⟩ := List.cons.inj hs
          refine ⟨body, by simp, rfl, by simpa using hdone, fun first second h => ?_⟩
          simpa using hfirst (c :: first) second (by rw [h]; rfl)

/-! ### Tags -/

/-- What a tag may hold: a closing bracket stands in quotes only, and quotes come in pairs. -/
inductive Enclosed : List Char → Prop where
  | nil : Enclosed []
  | plain {c : Char} {s : List Char} (hbracket : c ≠ '>') (hdouble : c ≠ '"') (hsingle : c ≠ '\'') (hs : Enclosed s) :
    Enclosed (c :: s)
  | quoted {quote : Char} {value s : List Char} (hquote : quote = '"' ∨ quote = '\'') (hvalue : quote ∉ value)
    (hs : Enclosed s) : Enclosed (quote :: (value ++ quote :: s))

private theorem cutTag?_value {quote : Char} {value : List Char} (h : quote ∉ value) (before s : List Char) :
    cutTag? (some quote) before (value ++ quote :: s) = cutTag? none (quote :: (value.reverse ++ before)) s := by
  induction value generalizing before with
  | nil => rw [List.nil_append, cutTag?, if_pos rfl, List.reverse_nil, List.nil_append]
  | cons c value ih =>
    rw [List.mem_cons, not_or] at h
    rw [List.cons_append, cutTag?, if_neg (Ne.symm h.1), ih h.2, List.reverse_cons, List.append_assoc]
    rfl

theorem cutTag?_of_enclosed (h : Enclosed body) (before rest : List Char) :
    cutTag? none before (body ++ '>' :: rest) = some (before.reverse ++ body, rest) := by
  induction h generalizing before with
  | nil => rw [List.nil_append, cutTag?, if_pos rfl, List.append_nil]
  | plain hbracket hdouble hsingle _ ih =>
    rw [List.cons_append, cutTag?, if_neg hbracket, if_neg (by simp [hdouble, hsingle]), ih, List.reverse_cons,
      List.append_assoc]
    rfl
  | @quoted quote value s hquote hvalue _ ih =>
    have hbracket : quote ≠ '>' := by
      rintro rfl
      rcases hquote with h | h <;> cases h
    rw [List.cons_append, List.append_assoc, List.cons_append, cutTag?, if_neg hbracket, if_pos (by simpa using hquote),
      cutTag?_value hvalue, ih]
    simp

/-- What is cut off, outside of quotes and within. -/
private theorem enclosed_of_cutTag? (s : List Char) :
    (∀ before content, cutTag? none before s = some (content, rest) →
      ∃ body, content = before.reverse ++ body ∧ s = body ++ '>' :: rest ∧ Enclosed body) ∧
    ∀ quote before content, cutTag? (some quote) before s = some (content, rest) →
      ∃ value body, content = before.reverse ++ value ++ quote :: body ∧ s = value ++ quote :: (body ++ '>' :: rest) ∧
        quote ∉ value ∧ Enclosed body := by
  induction s with
  | nil => exact ⟨nofun, nofun⟩
  | cons c s ih =>
    obtain ⟨ihOutside, ihWithin⟩ := ih
    constructor
    · intro before content h
      rw [cutTag?] at h
      by_cases hbracket : c = '>'
      · rw [if_pos hbracket] at h
        subst hbracket
        cases h
        exact ⟨[], (List.append_nil _).symm, rfl, .nil⟩
      · rw [if_neg hbracket] at h
        by_cases hquote : c = '"' ∨ c = '\''
        · rw [if_pos (by simpa using hquote)] at h
          obtain ⟨value, body, rfl, rfl, hvalue, hbody⟩ := ihWithin _ _ _ h
          exact ⟨c :: (value ++ c :: body), by simp, by simp, .quoted hquote hvalue hbody⟩
        · rw [if_neg (by simpa using hquote)] at h
          rw [not_or] at hquote
          obtain ⟨body, rfl, rfl, hbody⟩ := ihOutside _ _ h
          exact ⟨c :: body, by simp, rfl, .plain hbracket hquote.1 hquote.2 hbody⟩
    · intro quote before content h
      rw [cutTag?] at h
      by_cases hc : c = quote
      · rw [if_pos hc] at h
        subst hc
        obtain ⟨body, rfl, rfl, hbody⟩ := ihOutside _ _ h
        exact ⟨[], body, by simp, rfl, List.not_mem_nil, hbody⟩
      · rw [if_neg hc] at h
        obtain ⟨value, body, rfl, rfl, hvalue, hbody⟩ := ihWithin _ _ _ h
        refine ⟨c :: value, body, by simp, rfl, ?_, hbody⟩
        rw [List.mem_cons, not_or]
        exact ⟨Ne.symm hc, hvalue⟩

theorem cutTag?_eq_some_iff :
    cutTag? none [] s = some (content, rest) ↔ s = content ++ '>' :: rest ∧ Enclosed content := by
  constructor
  · intro h
    obtain ⟨body, rfl, hs, hbody⟩ := (enclosed_of_cutTag? s).1 [] content h
    exact ⟨hs, hbody⟩
  · rintro ⟨rfl, hcontent⟩
    exact cutTag?_of_enclosed hcontent [] rest

/-! ### Marks -/

/-- A mark that is not in the head stands behind it. -/
private theorem of_append_eq_append_cons {mark : Char} {head first second : List Char} (hhead : mark ∉ head)
    (h : head ++ body = first ++ mark :: second) : ∃ start, first = head ++ start ∧ body = start ++ mark :: second := by
  rcases List.append_eq_append_iff.1 h with ⟨start, rfl, hbody⟩ | ⟨start, rfl, hstart⟩
  · exact ⟨start, rfl, hbody⟩
  · cases start with
    | nil => exact ⟨[], by simp, hstart.symm⟩
    | cons c start =>
      obtain ⟨rfl, -⟩ := List.cons.inj hstart
      exact absurd (by simp) hhead

/-- Where only what follows `head` decides, and it has to end in `mark` twice, the cut is at their first place. -/
private theorem cutWhen?_twice {done : List Char → Bool} {head : List Char} {mark : Char} (hhead : '>' ∉ head)
    (hmark : mark ≠ '>') (hdone : ∀ body : List Char, done (head ++ body).reverse = true ↔ [mark, mark] <:+ body) :
    cutWhen? done [] (head ++ s) = some (content, rest) ↔ ∃ body, content = head ++ body ++ [mark, mark] ∧
      s = body ++ [mark, mark, '>'] ++ rest ∧ ¬ [mark, mark, '>'] <:+: body := by
  rw [cutWhen?_eq_some_iff]
  simp only [List.reverse_nil, List.nil_append, List.append_nil]
  constructor
  · rintro ⟨_, rfl, hs, hends, hfirst⟩
    obtain ⟨body, rfl, rfl⟩ := of_append_eq_append_cons hhead hs
    obtain ⟨body, rfl⟩ := (hdone body).1 hends
    refine ⟨body, by simp, by simp, ?_⟩
    rintro ⟨first, second, rfl⟩
    have hnot := hfirst (head ++ (first ++ [mark, mark])) (second ++ [mark, mark]) (by simp)
    rw [(hdone _).2 (List.suffix_append first _)] at hnot
    cases hnot
  · rintro ⟨body, rfl, rfl, hbody⟩
    refine ⟨head ++ (body ++ [mark, mark]), by simp, by simp, (hdone _).2 (List.suffix_append body _), ?_⟩
    intro first second h
    obtain ⟨start, rfl, hstart⟩ := of_append_eq_append_cons hhead h
    rw [Bool.eq_false_iff, Ne, hdone]
    rintro ⟨first, rfl⟩
    rcases List.append_eq_append_iff.1 hstart with ⟨middle, hmiddle, hrest⟩ | ⟨middle, rfl, hrest⟩
    · -- The bracket would be one of the marks.
      have hmem : '>' ∈ [mark, mark] := hrest ▸ by simp
      simp [Ne.symm hmark] at hmem
    · cases middle with
      | nil =>
        have hmem : '>' ∈ [mark, mark] := by
          rw [List.nil_append] at hrest
          rw [← hrest]
          simp
        simp [Ne.symm hmark] at hmem
      | cons c middle =>
        obtain ⟨rfl, -⟩ := List.cons.inj hrest
        exact hbody ⟨first, middle, by simp⟩

private theorem startsWith_iff {start : List Char} : Text.startsWith start s = true ↔ start <+: s := by
  unfold Text.startsWith
  rw [Option.isSome_iff_exists]
  constructor
  · rintro ⟨rest, h⟩
    exact ⟨rest, (Text.eq_of_dropStart? h).symm⟩
  · rintro ⟨rest, rfl⟩
    exact ⟨rest, Text.dropStart?_append start rest⟩

private theorem startsWithAnyCase_iff {capitals : List Char} :
    startsWithAnyCase capitals s = true ↔ ∃ mark content, s = mark ++ content ∧ mark.map Char.toUpper = capitals := by
  unfold startsWithAnyCase
  rw [startsWith_iff]
  constructor
  · rintro ⟨rest, h⟩
    obtain ⟨mark, content, hs, hmark, -⟩ := List.map_eq_append_iff.1 h.symm
    exact ⟨mark, content, hs, hmark⟩
  · rintro ⟨mark, content, rfl, rfl⟩
    rw [List.map_append]
    exact List.prefix_append _ _

/-- What is no small letter and no capital of the mark is not in it. -/
private theorem not_mem_of_map_toUpper {mark capitals : List Char} {c : Char} (hmark : mark.map Char.toUpper = capitals)
    (hc : c.toUpper ∉ capitals) : c ∉ mark :=
  fun h => hc (hmark ▸ List.mem_map_of_mem h)

/-- What a comment begins with, after the bracket. -/
def commentMark : List Char := ['!', '-', '-']

/-- What a literal section begins with, after the bracket, in upper or lower case. -/
def literalMark : List Char := ['!', '[', 'C', 'D', 'A', 'T', 'A', '[']

/-- What a document type begins with, after the bracket, in upper or lower case. -/
def documentTypeMark : List Char := ['!', 'D', 'O', 'C', 'T', 'Y', 'P', 'E']

theorem cutWhen?_comment :
    cutWhen? (fun before => before.length > 4 && Text.startsWith ['-', '-'] before) [] (commentMark ++ s) =
        some (content, rest) ↔
      ∃ body, content = commentMark ++ body ++ ['-', '-'] ∧ s = body ++ ['-', '-', '>'] ++ rest ∧
        ¬ ['-', '-', '>'] <:+: body := by
  refine cutWhen?_twice (by decide) (by decide) fun body => ?_
  rw [← List.reverse_prefix, List.reverse_append, Bool.and_eq_true, startsWith_iff, decide_eq_true_iff, commentMark]
  generalize body.reverse = behind
  -- The marks of the beginning are not those of the end.
  match behind with
  | [] => simp
  | [_] => simp
  | _ :: _ :: _ => simp

theorem cutWhen?_literal {mark : List Char} (hmark : mark.map Char.toUpper = literalMark) :
    cutWhen? (Text.startsWith [']', ']']) [] (mark ++ s) = some (content, rest) ↔
      ∃ body, content = mark ++ body ++ [']', ']'] ∧ s = body ++ [']', ']', '>'] ++ rest ∧
        ¬ [']', ']', '>'] <:+: body := by
  have hbracket : '>' ∉ mark := not_mem_of_map_toUpper hmark (by decide)
  have hlast : mark.reverse.head? ≠ some ']' := by
    intro h
    have hupper := congrArg (Option.map Char.toUpper) h
    rw [List.head?_reverse, ← List.getLast?_map, hmark] at hupper
    revert hupper
    decide
  refine cutWhen?_twice hbracket (by decide) fun body => ?_
  rw [← List.reverse_prefix, List.reverse_append, startsWith_iff]
  generalize body.reverse = behind
  -- The last character of the beginning is no mark of the end.
  cases hreverse : mark.reverse with
  | nil => rw [List.append_nil]; rfl
  | cons c others =>
    rw [hreverse, List.head?_cons, Ne, Option.some.injEq] at hlast
    match behind with
    | [] => simp [Ne.symm hlast]
    | [_] => simp [Ne.symm hlast]
    | _ :: _ :: _ => simp

theorem cutWhen?_documentType {mark : List Char} (hmark : mark.map Char.toUpper = documentTypeMark) :
    cutWhen? (fun before => before.count '<' == before.count '>') [] (mark ++ s) = some (content, rest) ↔
      ∃ body, content = mark ++ body ∧ s = body ++ '>' :: rest ∧ body.count '<' = body.count '>' ∧
        ∀ first second, body = first ++ '>' :: second → first.count '<' ≠ first.count '>' := by
  have hopen : '<' ∉ mark := not_mem_of_map_toUpper hmark (by decide)
  have hclose : '>' ∉ mark := not_mem_of_map_toUpper hmark (by decide)
  have hcount : ∀ body : List Char,
      ((mark ++ body).reverse ++ []).count '<' == ((mark ++ body).reverse ++ []).count '>' ↔
        body.count '<' = body.count '>' := by
    intro body
    rw [List.append_nil, List.count_reverse, List.count_reverse, List.count_append, List.count_append,
      List.count_eq_zero_of_not_mem hopen, List.count_eq_zero_of_not_mem hclose, Nat.zero_add, Nat.zero_add, beq_iff_eq]
  rw [cutWhen?_eq_some_iff]
  simp only [List.reverse_nil, List.nil_append]
  constructor
  · rintro ⟨_, rfl, hs, hends, hfirst⟩
    obtain ⟨body, rfl, rfl⟩ := of_append_eq_append_cons hclose hs
    refine ⟨body, rfl, rfl, (hcount body).1 hends, ?_⟩
    rintro first second rfl heq
    have hnot := hfirst (mark ++ first) second (List.append_assoc ..).symm
    rw [(hcount first).2 heq] at hnot
    cases hnot
  · rintro ⟨body, rfl, rfl, hends, hfirst⟩
    refine ⟨mark ++ body, rfl, (List.append_assoc ..).symm, (hcount body).2 hends, fun first second h => ?_⟩
    obtain ⟨first, rfl, rfl⟩ := of_append_eq_append_cons hclose h
    rw [Bool.eq_false_iff, Ne, hcount]
    exact hfirst first second rfl

/-! ### Markup -/

/-- A closing tag holds its name and blanks. -/
theorem mem_closingName {c : Char} (hc : c ∈ body) : isTagBlank c = true ∨ c ∈ closingName body := by
  unfold closingName
  split
  · exact .inr hc
  · rw [List.mem_reverse]
    have hsplit : c ∈ body.reverse.takeWhile isTagBlank ++ body.reverse.dropWhile isTagBlank := by
      rw [List.takeWhile_append_dropWhile, List.mem_reverse]
      exact hc
    exact (List.mem_append.1 hsplit).imp List.mem_takeWhile_imp id

theorem length_closingName_le (body : List Char) : (closingName body).length ≤ body.length := by
  unfold closingName
  split
  · exact Nat.le_refl _
  · have hreverse : body.reverse.length = body.length := List.length_reverse
    rw [List.length_reverse, ← hreverse]
    exact (List.dropWhile_sublist _).length_le

/-- What stands between the brackets of a tag that opens an element. -/
structure IsTag (body : List Char) : Prop where
  enclosed : Enclosed body
  bang : body.head? ≠ some '!'
  slash : body.head? ≠ some '/'
  question : body.head? ≠ some '?'

/-- The text, up to the bracket that ends it; the bracket may be missing at the end of a document. -/
def Ends (body s after : List Char) : Prop := s = body ++ ['>'] ∨ s = body ∧ after = []

/-- The ways to write markup before the rest of a document, and what they mean. -/
inductive Spells (after : List Char) : List Char → Markup → Prop where
  | opening {body : List Char} (hbody : IsTag body) (hlast : body.getLast? ≠ some '/') :
    Spells after ('<' :: (body ++ ['>'])) (.opening (.read body))
  | selfClosing {body : List Char} (hbody : IsTag (body ++ ['/'])) :
    Spells after ('<' :: (body ++ ['/', '>'])) (.selfClosing (.read body))
  | closing {body s : List Char} (hbody : '>' ∉ body) (hs : Ends ('<' :: '/' :: body) s after) :
    Spells after s (.closing (.ofList (closingName body)))
  | literal {mark body : List Char} (hmark : mark.map Char.toUpper = literalMark)
    (hbody : ¬ [']', ']', '>'] <:+: body) :
    Spells after ('<' :: (mark ++ body ++ [']', ']', '>'])) (.literal body)
  | comment {body : List Char} (hbody : ¬ ['-', '-', '>'] <:+: body) :
    Spells after ('<' :: (commentMark ++ body ++ ['-', '-', '>'])) .ignored
  | documentType {mark body : List Char} (hmark : mark.map Char.toUpper = documentTypeMark)
    (hname : ∃ c ∈ body, isTagBlank c = false) (hbody : body.count '<' = body.count '>')
    (hfirst : ∀ first second, body = first ++ '>' :: second → first.count '<' ≠ first.count '>') :
    Spells after ('<' :: (mark ++ body ++ ['>'])) .ignored
  | instruction {body s : List Char} (hempty : body ≠ []) (hbody : '>' ∉ body)
    (hs : Ends ('<' :: '?' :: (body ++ ['?'])) s after) : Spells after s .ignored

private theorem cutAt_of_ends (mark : List Char) (hbody : '>' ∉ body) (h : Ends (mark ++ body) s after) :
    ∃ inside, s ++ after = mark ++ inside ∧ cutAt '>' inside = (body, after) := by
  rcases h with rfl | ⟨rfl, rfl⟩
  · exact ⟨body ++ '>' :: after, by simp, cutAt_eq_iff.2 ⟨hbody, .inl rfl⟩⟩
  · exact ⟨body, by simp, cutAt_eq_iff.2 ⟨hbody, .inr ⟨rfl, rfl⟩⟩⟩

private theorem ends_of_cutAt (mark : List Char) {inside : List Char} (h : cutAt '>' inside = (body, rest)) :
    '>' ∉ body ∧ ∃ s, Ends (mark ++ body) s rest ∧ mark ++ inside = s ++ rest := by
  obtain ⟨hbody, rfl | ⟨rfl, rfl⟩⟩ := cutAt_eq_iff.1 h
  · exact ⟨hbody, _, .inl rfl, by simp⟩
  · exact ⟨hbody, _, .inr ⟨rfl, rfl⟩, by simp⟩

/-- A character is a capital of itself, or the small letter of its capital. -/
private theorem eq_of_toUpper (c : Char) : c = c.toUpper ∨ c.toUpper.isUpper ∧ c = c.toUpper.toLower := by
  unfold Char.toUpper
  split
  case isFalse => exact .inl rfl
  case isTrue h =>
    right
    rw [UInt32.le_iff_toNat_le, UInt32.le_iff_toNat_le] at h
    have hupper : 'A'.val ≤ c.val + ('A'.val - 'a'.val) ∧ c.val + ('A'.val - 'a'.val) ≤ 'Z'.val := by
      simp only [UInt32.le_iff_toNat_le, UInt32.toNat_add]
      simp at h ⊢
      omega
    constructor
    · unfold Char.isUpper
      simpa using hupper
    · refine Char.ext (UInt32.toNat_inj.1 ?_)
      unfold Char.toLower
      rw [dif_pos hupper]
      simp at h ⊢
      omega

private theorem eq_of_toUpper_eq {c d : Char} (h : c.toUpper = d) (hd : d.isUpper = false) : c = d := by
  rcases eq_of_toUpper c with hc | ⟨hupper, -⟩
  · rw [hc, h]
  · rw [h, hd] at hupper
    cases hupper

/-- The first characters of a mark, which say what to look for. -/
private theorem literalMark_start {mark : List Char} (hmark : mark.map Char.toUpper = literalMark) :
    ∃ others, mark = '!' :: '[' :: others := by
  obtain ⟨first, _, rfl, hfirst, h⟩ := List.map_eq_cons_iff.1 hmark
  obtain ⟨second, others, rfl, hsecond, -⟩ := List.map_eq_cons_iff.1 h
  exact ⟨others, by rw [eq_of_toUpper_eq hfirst rfl, eq_of_toUpper_eq hsecond rfl]⟩

private theorem documentTypeMark_start {mark : List Char} (hmark : mark.map Char.toUpper = documentTypeMark) :
    ∃ others, mark = '!' :: 'D' :: others ∨ mark = '!' :: 'd' :: others := by
  obtain ⟨first, _, rfl, hfirst, h⟩ := List.map_eq_cons_iff.1 hmark
  obtain ⟨second, others, rfl, hsecond, -⟩ := List.map_eq_cons_iff.1 h
  rw [eq_of_toUpper_eq hfirst rfl]
  rcases eq_of_toUpper second with h | ⟨-, h⟩
  · exact ⟨others, .inl (by rw [h, hsecond])⟩
  · exact ⟨others, .inr (by rw [h, hsecond]; rfl)⟩

private def sectionOf (content : List Char) : Markup := .literal ((content.drop 8).dropLast.dropLast)

/-- Something is cut off and means something, if it is what was looked for. -/
private theorem cut_eq_some_iff {cut : Option (List Char × List Char)} (check : List Char → Bool)
    (meaning : List Char → Markup) {m : Markup} :
    (cut.bind fun (content, rest) => if check content then some (meaning content, rest) else none) = some (m, rest) ↔
      ∃ content, cut = some (content, rest) ∧ check content = true ∧ m = meaning content := by
  constructor
  · intro h
    obtain ⟨⟨content, after⟩, hcut, h⟩ := Option.bind_eq_some_iff.1 h
    dsimp only at h
    split at h
    case isTrue hcheck =>
      cases h
      exact ⟨content, hcut, hcheck, rfl⟩
    case isFalse => cases h
  · rintro ⟨content, rfl, hcheck, rfl⟩
    exact if_pos hcheck

theorem readBang?_comment {m : Markup} :
    readBang? (commentMark ++ s) = some (m, rest) ↔
      m = .ignored ∧ ∃ body, s = body ++ ['-', '-', '>'] ++ rest ∧ ¬ ['-', '-', '>'] <:+: body := by
  refine Iff.trans (cut_eq_some_iff isComment fun _ => .ignored) ?_
  constructor
  · rintro ⟨content, hcut, -, rfl⟩
    obtain ⟨body, rfl, rfl, hbody⟩ := cutWhen?_comment.1 hcut
    exact ⟨rfl, body, rfl, hbody⟩
  · rintro ⟨rfl, body, rfl, hbody⟩
    exact ⟨commentMark ++ body ++ ['-', '-'], cutWhen?_comment.2 ⟨body, rfl, rfl, hbody⟩,
      startsWith_iff.2 ⟨body ++ ['-', '-'], (List.append_assoc ..).symm⟩, rfl⟩

theorem readBang?_literal {mark : List Char} (hmark : mark.map Char.toUpper = literalMark) {m : Markup} :
    readBang? (mark ++ s) = some (m, rest) ↔
      ∃ body, m = .literal body ∧ s = body ++ [']', ']', '>'] ++ rest ∧ ¬ [']', ']', '>'] <:+: body := by
  have hread : readBang? (mark ++ s) = (cutWhen? (Text.startsWith [']', ']']) [] (mark ++ s)).bind
      fun (content, rest) => if isLiteral content then some (sectionOf content, rest) else none := by
    obtain ⟨others, rfl⟩ := literalMark_start hmark
    rfl
  have hlength : mark.length = 8 := by rw [← List.length_map (f := Char.toUpper), hmark]; rfl
  have hinside : ∀ body : List Char, sectionOf (mark ++ body ++ [']', ']']) = .literal body := by
    intro body
    rw [sectionOf, List.append_assoc, List.drop_left' hlength]
    simp
  rw [hread, cut_eq_some_iff isLiteral sectionOf]
  constructor
  · rintro ⟨content, hcut, -, rfl⟩
    obtain ⟨body, rfl, rfl, hbody⟩ := (cutWhen?_literal hmark).1 hcut
    exact ⟨body, by rw [hinside], rfl, hbody⟩
  · rintro ⟨body, rfl, rfl, hbody⟩
    exact ⟨mark ++ body ++ [']', ']'], (cutWhen?_literal hmark).2 ⟨body, rfl, rfl, hbody⟩,
      startsWithAnyCase_iff.2 ⟨mark, body ++ [']', ']'], List.append_assoc .., hmark⟩, by rw [hinside]⟩

theorem readBang?_documentType {mark : List Char} (hmark : mark.map Char.toUpper = documentTypeMark) {m : Markup} :
    readBang? (mark ++ s) = some (m, rest) ↔
      m = .ignored ∧ ∃ body, s = body ++ '>' :: rest ∧ (∃ c ∈ body, isTagBlank c = false) ∧
        body.count '<' = body.count '>' ∧
        ∀ first second, body = first ++ '>' :: second → first.count '<' ≠ first.count '>' := by
  have hread : readBang? (mark ++ s) =
      (cutWhen? (fun before => before.count '<' == before.count '>') [] (mark ++ s)).bind
        fun (content, rest) => if isDocumentType content then some (.ignored, rest) else none := by
    obtain ⟨others, rfl | rfl⟩ := documentTypeMark_start hmark <;> rfl
  have hlength : mark.length = 8 := by rw [← List.length_map (f := Char.toUpper), hmark]; rfl
  have hname : ∀ body : List Char, isDocumentType (mark ++ body) = true ↔ ∃ c ∈ body, isTagBlank c = false := by
    intro body
    rw [isDocumentType, List.drop_left' hlength, Bool.and_eq_true, List.any_eq_true]
    simp only [Bool.not_eq_true', and_iff_right_iff_imp]
    exact fun _ => startsWithAnyCase_iff.2 ⟨mark, body, rfl, hmark⟩
  rw [hread, cut_eq_some_iff isDocumentType fun _ => .ignored]
  constructor
  · rintro ⟨content, hcut, hdocument, rfl⟩
    obtain ⟨body, rfl, rfl, hbody⟩ := (cutWhen?_documentType hmark).1 hcut
    exact ⟨rfl, body, rfl, (hname body).1 hdocument, hbody⟩
  · rintro ⟨rfl, body, rfl, hblank, hbody⟩
    exact ⟨mark ++ body, (cutWhen?_documentType hmark).2 ⟨body, rfl, rfl, hbody⟩, (hname body).2 hblank, rfl⟩

/-- What is read after an exclamation mark has one of the three marks. -/
private theorem mark_of_readBang? {m : Markup} (h : readBang? s = some (m, rest)) :
    (∃ inside, s = commentMark ++ inside) ∨
    (∃ mark inside, mark.map Char.toUpper = literalMark ∧ s = mark ++ inside) ∨
    ∃ mark inside, mark.map Char.toUpper = documentTypeMark ∧ s = mark ++ inside := by
  have hstart : ∀ {done : List Char → Bool} {mark inside after : List Char},
      cutWhen? done [] s = some (mark ++ inside, after) → s = mark ++ (inside ++ '>' :: after) := by
    intro done mark inside after hcut
    obtain ⟨body, hbody, hs, -⟩ := cutWhen?_eq_some_iff.1 hcut
    rw [hs, ← List.append_assoc, hbody]
    rfl
  have hdocument : ∀ {done : List Char → Bool} {content : List Char}, cutWhen? done [] s = some (content, rest) →
      isDocumentType content = true → ∃ mark inside, mark.map Char.toUpper = documentTypeMark ∧ s = mark ++ inside := by
    intro done content hcut hcontent
    obtain ⟨mark, inside, rfl, hmark⟩ := startsWithAnyCase_iff.1 (Bool.and_eq_true_iff.1 hcontent).1
    exact ⟨mark, _, hmark, hstart hcut⟩
  unfold readBang? at h
  split at h
  · obtain ⟨content, hcut, hcomment, -⟩ := (cut_eq_some_iff isComment fun _ => .ignored).1 h
    obtain ⟨inside, rfl⟩ := startsWith_iff.1 hcomment
    exact .inl ⟨_, hstart hcut⟩
  · obtain ⟨content, hcut, hliteral, -⟩ := (cut_eq_some_iff isLiteral sectionOf).1 h
    obtain ⟨mark, inside, rfl, hmark⟩ := startsWithAnyCase_iff.1 hliteral
    exact .inr (.inl ⟨mark, _, hmark, hstart hcut⟩)
  · obtain ⟨content, hcut, hcontent, -⟩ := (cut_eq_some_iff isDocumentType fun _ => .ignored).1 h
    exact .inr (.inr (hdocument hcut hcontent))
  · obtain ⟨content, hcut, hcontent, -⟩ := (cut_eq_some_iff isDocumentType fun _ => .ignored).1 h
    exact .inr (.inr (hdocument hcut hcontent))
  · cases h

private theorem readMarkup?_mark {mark inside : List Char} (h : mark.head? = some '!') :
    readMarkup? (mark ++ inside) = readBang? (mark ++ inside) := by
  obtain ⟨others, rfl⟩ := List.head?_eq_some_iff.1 h
  rfl

private def tagMarkup (content : List Char) : Markup :=
  if content.getLast? == some '/' then .selfClosing (.read content.dropLast) else .opening (.read content)

private theorem readMarkup?_tag (hbang : s.head? ≠ some '!') (hslash : s.head? ≠ some '/')
    (hquestion : s.head? ≠ some '?') {m : Markup} :
    readMarkup? s = some (m, rest) ↔
      ∃ content, s = content ++ '>' :: rest ∧ Enclosed content ∧ m = tagMarkup content := by
  have hread : readMarkup? s = (cutTag? none [] s).map fun (content, rest) => (tagMarkup content, rest) := by
    unfold readMarkup?
    split
    · exact absurd rfl hbang
    · exact absurd rfl hslash
    · exact absurd rfl hquestion
    · rw [Option.map_eq_bind]
      refine congrArg _ (funext fun (content, rest) => ?_)
      simp only [tagMarkup, Function.comp]
      split <;> rfl
  rw [hread, Option.map_eq_some_iff]
  constructor
  · rintro ⟨⟨content, after⟩, hcut, h⟩
    cases h
    obtain ⟨hs, hcontent⟩ := cutTag?_eq_some_iff.1 hcut
    exact ⟨content, hs, hcontent, rfl⟩
  · rintro ⟨content, hs, hcontent, rfl⟩
    exact ⟨(content, rest), cutTag?_eq_some_iff.2 ⟨hs, hcontent⟩, rfl⟩

private theorem head?_ne_iff {c : Char} (hc : c ≠ '>') :
    (body ++ '>' :: rest).head? ≠ some c ↔ body.head? ≠ some c := by
  cases body with
  | nil => simpa using Ne.symm hc
  | cons d body => rfl

private theorem readMarkup?_of_isTag (hbody : IsTag body) :
    readMarkup? (body ++ '>' :: rest) = some (tagMarkup body, rest) :=
  (readMarkup?_tag ((head?_ne_iff (by decide)).2 hbody.bang) ((head?_ne_iff (by decide)).2 hbody.slash)
    ((head?_ne_iff (by decide)).2 hbody.question)).2 ⟨body, rfl, hbody.enclosed, rfl⟩

private theorem readMarkup?_of_spells {m : Markup} (h : Spells rest s m) :
    ∃ inside, s ++ rest = '<' :: inside ∧ readMarkup? inside = some (m, rest) := by
  cases h with
  | @opening body hbody hlast =>
    refine ⟨body ++ '>' :: rest, by simp, ?_⟩
    rw [readMarkup?_of_isTag hbody, tagMarkup, if_neg (mt beq_iff_eq.1 hlast)]
  | @selfClosing body hbody =>
    refine ⟨body ++ ['/'] ++ '>' :: rest, by simp, ?_⟩
    rw [readMarkup?_of_isTag hbody, tagMarkup, if_pos (by simp), List.dropLast_concat]
  | @closing body s hbody hs =>
    obtain ⟨inside, hinside, hcut⟩ := cutAt_of_ends ['<', '/'] hbody hs
    refine ⟨'/' :: inside, hinside, ?_⟩
    simp only [readMarkup?, hcut]
  | @literal mark body hmark hbody =>
    obtain ⟨others, hothers⟩ := literalMark_start hmark
    refine ⟨mark ++ (body ++ [']', ']', '>'] ++ rest), by simp, ?_⟩
    rw [readMarkup?_mark (by rw [hothers]; rfl)]
    exact (readBang?_literal hmark).2 ⟨body, rfl, rfl, hbody⟩
  | @comment body hbody =>
    refine ⟨commentMark ++ (body ++ ['-', '-', '>'] ++ rest), by simp, ?_⟩
    exact readBang?_comment.2 ⟨rfl, body, rfl, hbody⟩
  | @documentType mark body hmark hname hbody hfirst =>
    obtain ⟨others, hothers⟩ := documentTypeMark_start hmark
    refine ⟨mark ++ (body ++ '>' :: rest), by simp, ?_⟩
    rw [readMarkup?_mark (by rcases hothers with rfl | rfl <;> rfl)]
    exact (readBang?_documentType hmark).2 ⟨rfl, body, rfl, hname, hbody, hfirst⟩
  | @instruction body s hempty hbody hs =>
    have hclosed : '>' ∉ body ++ ['?'] := by simpa using hbody
    obtain ⟨inside, hinside, hcut⟩ := cutAt_of_ends ['<', '?'] hclosed hs
    have hlength : 1 ≤ body.length := List.length_pos_iff.2 hempty
    refine ⟨'?' :: inside, hinside, ?_⟩
    simp only [readMarkup?, hcut]
    rw [if_pos (by simp [hlength])]

private theorem spells_of_readMarkup? {m : Markup} {inside : List Char} (h : readMarkup? inside = some (m, rest)) :
    ∃ s, Spells rest s m ∧ '<' :: inside = s ++ rest := by
  by_cases hbang : inside.head? = some '!'
  · rw [← List.append_nil inside, readMarkup?_mark hbang, List.append_nil] at h
    rcases mark_of_readBang? h with ⟨inside, rfl⟩ | ⟨mark, inside, hmark, rfl⟩ | ⟨mark, inside, hmark, rfl⟩
    · obtain ⟨rfl, body, rfl, hbody⟩ := readBang?_comment.1 h
      exact ⟨_, .comment hbody, by simp⟩
    · obtain ⟨body, rfl, rfl, hbody⟩ := (readBang?_literal hmark).1 h
      exact ⟨_, .literal hmark hbody, by simp⟩
    · obtain ⟨rfl, body, rfl, hname, hbody, hfirst⟩ := (readBang?_documentType hmark).1 h
      exact ⟨_, .documentType hmark hname hbody hfirst, by simp⟩
  by_cases hslash : inside.head? = some '/'
  · obtain ⟨inside, rfl⟩ := List.head?_eq_some_iff.1 hslash
    simp only [readMarkup?, Option.some.injEq, Prod.mk.injEq] at h
    obtain ⟨rfl, rfl⟩ := h
    obtain ⟨hbody, s, hs, hinside⟩ := ends_of_cutAt ['<', '/'] (Prod.eta (cutAt '>' inside)).symm
    exact ⟨s, .closing hbody hs, hinside⟩
  by_cases hquestion : inside.head? = some '?'
  · obtain ⟨inside, rfl⟩ := List.head?_eq_some_iff.1 hquestion
    simp only [readMarkup?] at h
    split at h
    case isTrue hcheck =>
      cases h
      rw [Bool.and_eq_true, decide_eq_true_iff, beq_iff_eq] at hcheck
      obtain ⟨hlength, hlast⟩ := hcheck
      obtain ⟨hbody, s, hs, hinside⟩ := ends_of_cutAt ['<', '?'] (Prod.eta (cutAt '>' inside)).symm
      obtain ⟨body, hcontent⟩ := List.getLast?_eq_some_iff.1 hlast
      rw [hcontent] at hlength hbody hs
      refine ⟨s, .instruction ?_ (fun h => hbody (List.mem_append_left _ h)) hs, hinside⟩
      rintro rfl
      simp at hlength
    case isFalse => cases h
  obtain ⟨content, rfl, henclosed, rfl⟩ := (readMarkup?_tag hbang hslash hquestion).1 h
  have hcontent : IsTag content := ⟨henclosed, (head?_ne_iff (by decide)).1 hbang, (head?_ne_iff (by decide)).1 hslash,
    (head?_ne_iff (by decide)).1 hquestion⟩
  unfold tagMarkup
  split
  case isTrue hlast =>
    obtain ⟨body, rfl⟩ := List.getLast?_eq_some_iff.1 (beq_iff_eq.1 hlast)
    rw [List.dropLast_concat]
    exact ⟨_, .selfClosing hcontent, by simp⟩
  case isFalse hlast => exact ⟨_, .opening hcontent (mt beq_iff_eq.2 hlast), by simp⟩

/-- Markup is what is spelled as such. -/
theorem readMarkup?_eq_some_iff {m : Markup} {inside : List Char} :
    readMarkup? inside = some (m, rest) ↔ ∃ s, Spells rest s m ∧ '<' :: inside = s ++ rest := by
  constructor
  · exact spells_of_readMarkup?
  · rintro ⟨s, hs, h⟩
    obtain ⟨inside', hinside, hread⟩ := readMarkup?_of_spells hs
    rw [← h] at hinside
    cases hinside
    exact hread

end RosRecipes.Xml
