import RosRecipes.Configuration
import RosRecipes.Proofs.Host

/-!
# References to package sets

A reference to a repository of GitHub matches a pattern (`FlakeReference.referencePattern`), in which three parts are
as short as possible: so each of them reaches to the next separator.

* The parts are found by that pattern (`parts?_eq_match?`), and they are those that spell the reference
  (`parts?_eq_some_iff`).
* A reference has an expression just if it is a path or is spelled out of these parts; otherwise it is refused as it
  stands (`expression_iff_spelled`).  The parts may be empty.
-/

namespace RosRecipes.FlakeReference

open Host (inLine)
open Text (Match Pattern)

variable {α β : Type} {s before after : List Char} {sep : Char}

/-! ### Cutting at the first separator -/

theorem cut?_cons_self (sep : Char) (s : List Char) : cut? sep (sep :: s) = some ([], s) := by
  simp [cut?]

theorem cut?_cons_of_ne {c : Char} (h : c ≠ sep) (s : List Char) :
    cut? sep (c :: s) = (cut? sep s).map fun (before, after) => (c :: before, after) := by
  have hc : decide (c ≠ sep) = true := decide_eq_true h
  unfold cut?
  rw [List.dropWhile_cons, List.takeWhile_cons, if_pos hc, if_pos hc]
  cases s.dropWhile (· ≠ sep) <;> rfl

/-- A text is cut at the first separator. -/
theorem cut?_eq_some_iff : cut? sep s = some (before, after) ↔ s = before ++ sep :: after ∧ sep ∉ before := by
  induction s generalizing before with
  | nil => simp [cut?]
  | cons c s ih =>
    by_cases hc : c = sep
    · subst hc
      rw [cut?_cons_self]
      constructor
      · intro h
        cases h
        exact ⟨rfl, List.not_mem_nil⟩
      · rintro ⟨h, hbefore⟩
        cases before with
        | nil => simpa using h
        | cons x before => simp_all
    · rw [cut?_cons_of_ne hc, Option.map_eq_some_iff]
      constructor
      · rintro ⟨⟨before', after'⟩, hcut, heq⟩
        cases heq
        obtain ⟨rfl, hbefore⟩ := ih.1 hcut
        exact ⟨rfl, by simp [hbefore, Ne.symm hc]⟩
      · rintro ⟨h, hbefore⟩
        cases before with
        | nil => exact absurd (List.cons.inj h).1 hc
        | cons x before =>
          obtain ⟨rfl, rfl⟩ := List.cons.inj h
          exact ⟨(before, after), ih.2 ⟨rfl, fun hmem => hbefore (List.mem_cons_of_mem _ hmem)⟩, rfl⟩

theorem cut?_eq_none_iff : cut? sep s = none ↔ sep ∉ s := by
  rw [Option.eq_none_iff_forall_ne_some]
  constructor
  · intro h hmem
    obtain ⟨before, after, rfl, hbefore⟩ := List.eq_append_cons_of_mem hmem
    exact h (before, after) (cut?_eq_some_iff.2 ⟨rfl, hbefore⟩)
  · rintro h ⟨before, after⟩ hcut
    rw [(cut?_eq_some_iff.1 hcut).1] at h
    exact h (by simp)

/-! ### The pattern -/

/-- What may follow the repository: a slash and the rest of the line. -/
def endPattern : Pattern :=
  .seq (.optional (.seq (.text ['/']) (.group "reference" (.greedy inLine)))) .finish

/-- References to repositories. -/
def referencePattern : Pattern :=
  .seq (.group "kind" (.lazy inLine)) (.seq (.text [':'])
    (.seq (.group "owner" (.lazy inLine)) (.seq (.text ['/'])
      (.seq (.group "repository" (.lazy inLine)) endPattern))))

/-- The parts that the groups of a match hold; the last one may be missing. -/
def partsOf (groups : List (String × List Char)) : Parts where
  kind := (groups.lookup "kind").getD []
  owner := (groups.lookup "owner").getD []
  repository := (groups.lookup "repository").getD []
  reference := groups.lookup "reference"

/-- A run before a separator, as short as possible, reaches to the first one.  Later ones are of no use, if the rest
fails behind them where it fails behind the first. -/
private theorem findSome?_runs_cut (next : List Char → List Char → Option α)
    (hlater : ∀ taken taken' before after, '\n' ∉ before → next taken (before ++ sep :: after) = none →
      next taken' after = none) (s : List Char) :
    (Text.runs inLine s).findSome? (fun (taken, rest) => (Text.dropStart? [sep] rest).bind (next taken)) =
      (cut? sep s).bind fun (before, after) => if '\n' ∈ before then none else next before after := by
  induction s generalizing next with
  | nil => rfl
  | cons c s ih =>
    have hmore : inLine c = true → (Text.runs inLine (c :: s)).findSome? (fun (taken, rest) =>
        (Text.dropStart? [sep] rest).bind (next taken)) =
        ((Text.dropStart? [sep] (c :: s)).bind (next [])).or
          ((cut? sep s).bind fun (before, after) => if '\n' ∈ before then none else next (c :: before) after) := by
      intro hc
      rw [Text.findSome?_runs_cons hc, ← ih (fun taken => next (c :: taken)) fun _ _ => hlater _ _]
    by_cases hsep : c = sep
    · subst hsep
      have hdrop : Text.dropStart? [c] (c :: s) = some s := Text.dropStart?_append [c] s
      rw [cut?_cons_self, Option.bind_some]
      dsimp only
      rw [if_neg List.not_mem_nil]
      by_cases hline : inLine c = true
      · rw [hmore hline, hdrop, Option.bind_some]
        cases hnext : next [] s with
        | some found => rfl
        | none =>
          refine Option.bind_eq_none_iff.2 fun found hcut => ?_
          obtain ⟨before, after⟩ := found
          dsimp only
          split
          · rfl
          · next hbefore => exact hlater _ _ before after hbefore ((cut?_eq_some_iff.1 hcut).1 ▸ hnext)
      · rw [Text.runs, if_neg hline, List.findSome?_singleton]
        dsimp only
        rw [hdrop, Option.bind_some]
    · have hdrop : Text.dropStart? [sep] (c :: s) = none := if_neg (Ne.symm hsep)
      rw [cut?_cons_of_ne hsep]
      by_cases hline : c = '\n'
      · subst hline
        rw [Text.runs, if_neg (by decide), List.findSome?_singleton]
        dsimp only
        rw [hdrop]
        cases cut? sep s <;> simp
      · rw [hmore (by simpa [inLine] using hline), hdrop]
        cases cut? sep s with
        | none => rfl
        | some found => simp [Ne.symm hline]

/-- After the repository the text has to end, or a slash and nothing but the rest of the line has to follow. -/
private theorem findSome?_endPattern (s : List Char) (f : List (String × List Char) → α) :
    (endPattern.ways s).findSome? (fun m => some (f m.groups)) =
      match s with
      | [] => some (f [])
      | c :: rest => if c = '/' ∧ '\n' ∉ rest then some (f [("reference", rest)]) else none := by
  have hline : ∀ rest : List Char, rest.dropWhile inLine = [] ↔ '\n' ∉ rest := by
    intro rest
    rw [List.dropWhile_eq_nil_iff]
    exact ⟨fun h hmem => absurd (h _ hmem) (by decide), fun h c hc => decide_eq_true fun heq => h (heq ▸ hc)⟩
  have hgreedy : ∀ rest : List Char, ((Pattern.greedy inLine).ways rest).findSome? (fun m =>
      if m.rest = [] then some (f (("reference", m.taken) :: m.groups)) else none) =
      if '\n' ∈ rest then none else some (f [("reference", rest)]) := by
    intro rest
    rw [Pattern.findSome?_greedy fun _ _ _ _ => if_neg nofun]
    dsimp only
    by_cases hmem : '\n' ∈ rest
    · rw [if_neg fun hend => (hline rest).1 hend hmem, if_pos hmem]
    · have htake : rest.takeWhile inLine = rest :=
        List.takeWhile_eq_self_iff.2 fun c hc => decide_eq_true fun heq => hmem (heq ▸ hc)
      rw [if_pos ((hline rest).2 hmem), if_neg hmem, htake]
  unfold endPattern
  rw [Pattern.findSome?_seq, Pattern.findSome?_optional, Pattern.findSome?_seq, Pattern.findSome?_text]
  simp only [Pattern.findSome?_finish, Pattern.findSome?_group, Match.append, Match.named, List.append_nil,
    List.nil_append]
  cases s with
  | nil => rfl
  | cons c rest =>
    by_cases hslash : c = '/'
    · subst hslash
      by_cases hmem : '\n' ∈ rest
      · simp [Text.dropStart?, hmem, hgreedy]
      · simp [Text.dropStart?, hmem, hgreedy]
    · have hdrop : Text.dropStart? ['/'] (c :: rest) = none := if_neg (Ne.symm hslash)
      simp [hdrop, hslash]

/-- The repository reaches to the next slash, or to the end of the text, which has to be in the same line. -/
private theorem findSome?_repository (s : List Char) (f : List Char → List (String × List Char) → α) :
    (Text.runs inLine s).findSome? (fun (taken, rest) =>
        (endPattern.ways rest).findSome? fun m => some (f taken m.groups)) =
      if '\n' ∈ s then none
      else some (match cut? '/' s with
        | some (repository, reference) => f repository [("reference", reference)]
        | none => f s []) := by
  induction s generalizing f with
  | nil => exact congrArg (fun x => Option.or x none) (findSome?_endPattern [] (f []))
  | cons c s ih =>
    rw [Text.runs, List.findSome?_cons]
    dsimp only
    rw [findSome?_endPattern (c :: s) (f [])]
    by_cases hline : c = '\n'
    · subst hline
      simp [inLine]
    · have hstep : inLine c = true := by simpa [inLine] using hline
      rw [if_pos hstep, List.findSome?_map]
      have hrest := ih fun taken => f (c :: taken)
      by_cases hslash : c = '/'
      · subst hslash
        rw [cut?_cons_self]
        by_cases hmem : '\n' ∈ s
        · rw [if_pos hmem] at hrest
          simpa [hmem] using hrest
        · simp [hmem]
      · rw [cut?_cons_of_ne hslash]
        simp only [hslash, false_and, if_false, List.mem_cons, Ne.symm hline, false_or]
        refine hrest.trans ?_
        cases cut? '/' s <;> rfl

/-- The owner reaches to the next slash, whatever is made of the rest of the line. -/
private theorem findSome?_owner (s : List Char) (f : List Char → List Char → List (String × List Char) → α) :
    (Text.runs inLine s).findSome? (fun (owner, rest) => (Text.dropStart? ['/'] rest).bind fun after =>
        (Text.runs inLine after).findSome? fun (taken, rest) =>
          (endPattern.ways rest).findSome? fun m => some (f owner taken m.groups)) =
      if '\n' ∈ s then none
      else (cut? '/' s).map fun (owner, rest) =>
        match cut? '/' rest with
        | some (repository, reference) => f owner repository [("reference", reference)]
        | none => f owner rest [] := by
  refine (findSome?_runs_cut (fun owner after => (Text.runs inLine after).findSome? fun (taken, rest) =>
    (endPattern.ways rest).findSome? fun m => some (f owner taken m.groups)) ?_ s).trans ?_
  · intro owner owner' before after hbefore hnone
    rw [findSome?_repository] at hnone ⊢
    by_cases hafter : '\n' ∈ after
    · rw [if_pos hafter]
    · rw [if_neg (by simp [hbefore, hafter])] at hnone
      cases hnone
  · simp only [findSome?_repository]
    cases hcut : cut? '/' s with
    | none => simp
    | some found =>
      obtain ⟨owner, rest⟩ := found
      have hs := (cut?_eq_some_iff.1 hcut).1
      by_cases howner : '\n' ∈ owner
      · simp [hs, howner]
      · by_cases hrest : '\n' ∈ rest
        · simp [hs, howner, hrest]
        · simp [hs, howner, hrest]

/-- The parts of a reference are those that the pattern finds. -/
theorem parts?_eq_match? (s : List Char) : parts? s = (referencePattern.match? s).map fun m => partsOf m.groups := by
  have howner := fun kind after => findSome?_owner after fun owner repository groups =>
    partsOf (("kind", kind) :: ("owner", owner) :: ("repository", repository) :: groups)
  unfold referencePattern
  rw [Pattern.match?_map]
  simp only [Pattern.findSome?_seq, Pattern.findSome?_group, Pattern.findSome?_lazy, Pattern.findSome?_text,
    Match.append, Match.named, List.nil_append, List.cons_append]
  refine .trans ?_ (findSome?_runs_cut (fun kind after => (Text.runs inLine after).findSome? fun (owner, rest) =>
    (Text.dropStart? ['/'] rest).bind fun after => (Text.runs inLine after).findSome? fun (taken, rest) =>
      (endPattern.ways rest).findSome? fun m =>
        some (partsOf (("kind", kind) :: ("owner", owner) :: ("repository", taken) :: m.groups))) ?_ s).symm
  · simp only [howner]
    unfold parts?
    cases hcut : cut? ':' s with
    | none => simp
    | some found =>
      obtain ⟨kind, rest⟩ := found
      have hs := (cut?_eq_some_iff.1 hcut).1
      by_cases hkind : '\n' ∈ kind
      · simp [hs, hkind]
      · by_cases hrest : '\n' ∈ rest
        · simp [hs, hkind, hrest]
        · have hline : '\n' ∉ s := by simp [hs, hkind, hrest]
          simp only [Option.bind_eq_bind, Option.bind_some, hline, hkind, hrest, if_false]
          cases cut? '/' rest with
          | none => rfl
          | some found =>
            obtain ⟨owner, rest⟩ := found
            simp only [Option.bind_some, Option.map_some]
            cases cut? '/' rest <;> rfl
  · intro kind kind' before after hbefore hnone
    rw [howner] at hnone ⊢
    by_cases hafter : '\n' ∈ after
    · rw [if_pos hafter]
    · rw [if_neg (by simp [hbefore, hafter]), Option.map_eq_none_iff, cut?_eq_none_iff] at hnone
      rw [if_neg hafter, Option.map_eq_none_iff, cut?_eq_none_iff]
      exact fun hmem => hnone (by simp [hmem])

/-! ### Spelling -/

/-- The parts spell a text on one line, and each separator that ends a part is the first one. -/
structure Parts.Spells (p : Parts) (s : List Char) : Prop where
  spelled : s = p.kind ++ ':' :: (p.owner ++ '/' :: (p.repository ++ p.reference.elim [] ('/' :: ·)))
  line : '\n' ∉ s
  kind : ':' ∉ p.kind
  owner : '/' ∉ p.owner
  repository : '/' ∉ p.repository

/-- The parts of a text are those that spell it. -/
theorem parts?_eq_some_iff {p : Parts} : parts? s = some p ↔ p.Spells s := by
  obtain ⟨kind, owner, repository, reference⟩ := p
  unfold parts?
  constructor
  · intro h
    split at h
    · cases h
    · next hline =>
      obtain ⟨⟨kind', rest⟩, hkind, hrest⟩ := Option.bind_eq_some_iff.1 h
      obtain ⟨⟨owner', rest'⟩, howner, hlast⟩ := Option.bind_eq_some_iff.1 hrest
      dsimp only at howner hlast
      obtain ⟨rfl, hcolon⟩ := cut?_eq_some_iff.1 hkind
      obtain ⟨rfl, hslash⟩ := cut?_eq_some_iff.1 howner
      cases hrepository : cut? '/' rest' with
      | some found =>
        rw [hrepository] at hlast
        cases hlast
        obtain ⟨rfl, hnot⟩ := cut?_eq_some_iff.1 hrepository
        exact ⟨rfl, hline, hcolon, hslash, hnot⟩
      | none =>
        rw [hrepository] at hlast
        cases hlast
        exact ⟨by simp, hline, hcolon, hslash, cut?_eq_none_iff.1 hrepository⟩
  · rintro ⟨rfl, hline, hcolon, hslash, hrepository⟩
    dsimp only at hline hcolon hslash hrepository ⊢
    have hkind := cut?_eq_some_iff.2
      ⟨(rfl : kind ++ ':' :: (owner ++ '/' :: (repository ++ reference.elim [] ('/' :: ·))) = _), hcolon⟩
    have howner := cut?_eq_some_iff.2
      ⟨(rfl : owner ++ '/' :: (repository ++ reference.elim [] ('/' :: ·)) = _), hslash⟩
    rw [if_neg hline, hkind]
    simp only [Option.bind_eq_bind, Option.bind_some, howner]
    cases reference with
    | none =>
      rw [Option.elim_none, List.append_nil, cut?_eq_none_iff.2 hrepository]
      rfl
    | some reference =>
      rw [Option.elim_some, cut?_eq_some_iff.2 ⟨rfl, hrepository⟩]
      rfl

/-- A path begins with a dot or a slash. -/
def IsPath (text : String) : Prop := ∃ c rest, text.toList = c :: rest ∧ (c = '.' ∨ c = '/')

/-- The text names a repository of GitHub, and perhaps a reference in it, which may hold slashes. -/
structure Names (text owner repository : String) (reference : Option String) : Prop where
  spelled : text = "github:" ++ owner ++ "/" ++ repository ++ reference.elim "" ("/" ++ ·)
  line : '\n' ∉ text.toList
  owner : '/' ∉ owner.toList
  repository : '/' ∉ repository.toList

/-- The expression for the archive of a reference, or else of the newest revision. -/
def tarball (owner repository : String) (reference : Option String) : String :=
  "builtins.fetchTarball \"https://github.com/" ++ owner ++ "/" ++ repository ++ "/archive/" ++
    reference.getD "HEAD" ++ ".tar.gz\""

variable {text other owner owner' repository repository' : String} {reference reference' : Option String}

private theorem toList_spelled {start finish : String} {kind rest : List Char} (hstart : start.toList = kind ++ [':'])
    (hfinish : finish.toList = rest) (owner repository : String) :
    (start ++ owner ++ "/" ++ repository ++ finish).toList =
      kind ++ ':' :: (owner.toList ++ '/' :: (repository.toList ++ rest)) := by
  have hslash : "/".toList = ['/'] := rfl
  simp only [String.toList_append, hslash, hstart, hfinish, List.append_assoc, List.cons_append, List.nil_append]

theorem names_iff : Names text owner repository reference ↔
    Parts.Spells ⟨"github".toList, owner.toList, repository.toList, reference.map String.toList⟩ text.toList := by
  have hgitHub : "github:".toList = "github".toList ++ [':'] := by decide +kernel
  have hcolon : ':' ∉ "github".toList := by decide +kernel
  have hend : (reference.elim "" ("/" ++ ·)).toList = (reference.map String.toList).elim [] ('/' :: ·) := by
    cases reference with
    | none => rfl
    | some reference => exact String.toList_append
  have htext : ("github:" ++ owner ++ "/" ++ repository ++ reference.elim "" ("/" ++ ·)).toList =
      "github".toList ++ ':' :: (owner.toList ++ '/' :: (repository.toList ++
        (reference.map String.toList).elim [] ('/' :: ·))) := toList_spelled hgitHub hend owner repository
  constructor
  · intro h
    exact ⟨by rw [h.spelled, htext], h.line, hcolon, h.owner, h.repository⟩
  · intro h
    exact ⟨by rw [← String.toList_inj, htext]; exact h.spelled, h.line, h.owner, h.repository⟩

/-- A text names one repository and one reference at most. -/
theorem Names.unique (h : Names text owner repository reference) (h' : Names text owner' repository' reference') :
    owner = owner' ∧ repository = repository' ∧ reference = reference' := by
  have heq := (parts?_eq_some_iff.2 (names_iff.1 h)).symm.trans (parts?_eq_some_iff.2 (names_iff.1 h'))
  obtain ⟨-, howner, hrepository, hreference⟩ := Parts.mk.inj (Option.some.inj heq)
  exact ⟨String.toList_inj.1 howner, String.toList_inj.1 hrepository,
    Option.map_injective (fun _ _ => String.toList_inj.1) hreference⟩

private theorem Names.start (h : Names text owner repository reference) : ∃ rest, text.toList = 'g' :: rest := by
  have hgitHub : "github".toList = ['g', 'i', 't', 'h', 'u', 'b'] := by decide +kernel
  have hspelled := (names_iff.1 h).spelled
  rw [hgitHub] at hspelled
  exact ⟨_, hspelled⟩

theorem Names.not_isPath (h : Names text owner repository reference) : ¬ IsPath text := by
  rintro ⟨c, rest, htext, hc⟩
  obtain ⟨rest', hstart⟩ := h.start
  obtain ⟨rfl, -⟩ := List.cons.inj (htext.symm.trans hstart)
  exact absurd hc (by decide)

/-! ### Expressions -/

theorem expression?_of_isPath (h : IsPath text) : expression? text = some text := by
  obtain ⟨c, rest, htext, hc⟩ := h
  unfold expression?
  rcases hc with rfl | rfl
  · rw [htext]
    rfl
  · rw [htext]
    rfl

private theorem expression?_of_not_isPath (h : ¬ IsPath text) :
    expression? text = (parts? text.toList).bind fun parts =>
      if parts.kind = "github".toList then some ("builtins.fetchTarball \"" ++ archive parts ++ "\"") else none := by
  unfold expression?
  split
  · next rest htext => exact absurd ⟨_, rest, htext, .inl rfl⟩ h
  · next rest htext => exact absurd ⟨_, rest, htext, .inr rfl⟩ h
  · rfl

private theorem append_within {a b c d ab cd reference reference' : String} (hstart : a ++ b = ab) (hend : c ++ d = cd)
    (hreference : reference = reference') (owner repository : String) :
    a ++ (b ++ owner ++ "/" ++ repository ++ "/archive/" ++ reference ++ c) ++ d =
      ab ++ owner ++ "/" ++ repository ++ "/archive/" ++ reference' ++ cd := by
  subst hstart hend hreference
  simp only [String.append_assoc]

private theorem archive_eq (owner repository : List Char) (reference : Option (List Char)) :
    "builtins.fetchTarball \"" ++ archive ⟨"github".toList, owner, repository, reference⟩ ++ "\"" =
      tarball (.ofList owner) (.ofList repository) (reference.map .ofList) := by
  have hreference : String.ofList (reference.getD "HEAD".toList) = (reference.map String.ofList).getD "HEAD" := by
    cases reference <;> rfl
  exact append_within (by decide +kernel) (by decide +kernel) hreference _ _

/-- What has an expression is a path, or names a repository. -/
theorem expression?_eq_some_iff {e : String} :
    expression? text = some e ↔ (IsPath text ∧ e = text) ∨
      ∃ owner repository reference, Names text owner repository reference ∧ e = tarball owner repository reference := by
  by_cases hpath : IsPath text
  · rw [expression?_of_isPath hpath, Option.some.injEq, and_iff_right hpath]
    refine ⟨fun h => .inl h.symm, ?_⟩
    rintro (rfl | ⟨owner, repository, reference, hnames, -⟩)
    · rfl
    · exact absurd hpath hnames.not_isPath
  · rw [expression?_of_not_isPath hpath, Option.bind_eq_some_iff]
    constructor
    · rintro ⟨⟨kind, owner, repository, reference⟩, hparts, h⟩
      split at h
      · next hkind =>
        dsimp only at hkind
        subst hkind
        cases h
        refine .inr ⟨.ofList owner, .ofList repository, reference.map .ofList, names_iff.2 ?_, archive_eq ..⟩
        have hreference : (reference.map String.ofList).map String.toList = reference := by
          simp [Option.map_map, Function.comp_def]
        have hofList : ∀ l : List Char, (String.ofList l).toList = l := fun _ => String.toList_ofList
        rw [hreference, hofList owner, hofList repository]
        exact parts?_eq_some_iff.1 hparts
      · cases h
    · rintro (⟨h, -⟩ | ⟨owner, repository, reference, hnames, rfl⟩)
      · exact absurd h hpath
      · refine ⟨_, parts?_eq_some_iff.2 (names_iff.1 hnames), ?_⟩
        have hreference : (reference.map String.toList).map String.ofList = reference := by
          simp [Option.map_map, Function.comp_def]
        have harchive := archive_eq owner.toList repository.toList (reference.map String.toList)
        rw [hreference, String.ofList_toList, String.ofList_toList] at harchive
        exact (if_pos rfl).trans (congrArg some harchive)

private theorem append_sep_inj {a b x y : List Char} (ha : sep ∉ a) (hb : sep ∉ b) (h : a ++ sep :: x = b ++ sep :: y) :
    a = b ∧ x = y := by
  have hcut := (cut?_eq_some_iff.2 ⟨rfl, ha⟩).symm.trans (cut?_eq_some_iff.2 ⟨h, hb⟩)
  exact Prod.mk.inj (Option.some.inj hcut)

private theorem toList_archived {middle : String} {rest : List Char} (hmiddle : middle.toList = '/' :: rest)
    (start owner repository reference finish : String) :
    (start ++ owner ++ "/" ++ repository ++ middle ++ reference ++ finish).toList =
      start.toList ++ (owner.toList ++ '/' :: (repository.toList ++ '/' :: (rest ++ (reference.toList ++
        finish.toList)))) := by
  have hslash : "/".toList = ['/'] := rfl
  simp only [String.toList_append, hslash, hmiddle, List.append_assoc, List.cons_append, List.nil_append]

private theorem toList_archive : "/archive/".toList = '/' :: "archive/".toList := by decide +kernel

/-- What names a repository is no expression. -/
private theorem Names.ne_tarball (h : Names text owner repository reference) :
    text ≠ tarball owner repository reference := by
  have hbuiltins : "builtins.fetchTarball \"https://github.com/".toList =
      'b' :: "uiltins.fetchTarball \"https://github.com/".toList := by decide +kernel
  rintro rfl
  obtain ⟨rest, hstart⟩ := h.start
  have htext := hstart.symm.trans (toList_archived toList_archive _ _ _ _ _)
  rw [hbuiltins] at htext
  exact absurd (List.cons.inj htext).1 (by decide)

/-- The archive of a reference that is given tells which one it is. -/
theorem tarball_inj {reference reference' : String} (howner : '/' ∉ owner.toList) (howner' : '/' ∉ owner'.toList)
    (hrepository : '/' ∉ repository.toList) (hrepository' : '/' ∉ repository'.toList)
    (h : tarball owner repository (some reference) = tarball owner' repository' (some reference')) :
    owner = owner' ∧ repository = repository' ∧ reference = reference' := by
  have htext (owner repository reference : String) : (tarball owner repository (some reference)).toList = _ :=
    toList_archived toList_archive _ _ _ _ _
  have hlists := (htext _ _ _).symm.trans ((congrArg String.toList h).trans (htext _ _ _))
  obtain ⟨hone, hrest⟩ := append_sep_inj howner howner' (List.append_cancel_left hlists)
  obtain ⟨htwo, hlast⟩ := append_sep_inj hrepository hrepository' hrest
  have hthree := List.append_cancel_right (List.append_cancel_left hlast)
  exact ⟨String.toList_inj.1 hone, String.toList_inj.1 htwo, String.toList_inj.1 hthree⟩

theorem expressionOf_eq_ok_iff {e : String} : Configuration.expressionOf text = .ok e ↔ expression? text = some e := by
  unfold Configuration.expressionOf
  cases expression? text <;> simp

theorem expressionOf_eq_error_iff :
    Configuration.expressionOf text = .error (.unsupportedReference text) ↔ expression? text = none := by
  unfold Configuration.expressionOf
  cases expression? text <;> simp

/-- A path stands for itself, and what names a repository of GitHub on one line stands for its archive; every other
text is refused as it stands.  The parts are those that the pattern finds, so there are no others, and references that
are given have different archives. -/
theorem expression_iff_spelled (text : String) :
    (Configuration.expressionOf text = .ok text ↔ IsPath text) ∧
    (∀ e, Configuration.expressionOf text = .ok e ↔ (IsPath text ∧ e = text) ∨
      ∃ owner repository reference, Names text owner repository reference ∧ e = tarball owner repository reference) ∧
    (Configuration.expressionOf text = .error (.unsupportedReference text) ↔
      ¬ IsPath text ∧ ¬ ∃ owner repository reference, Names text owner repository reference) ∧
    (∀ owner repository reference, Names text owner repository reference ↔
      ((referencePattern.match? text.toList).map fun m => partsOf m.groups) =
        some ⟨"github".toList, owner.toList, repository.toList, reference.map String.toList⟩) ∧
    ∀ other owner repository reference owner' repository' reference',
      Names text owner repository (some reference) → Names other owner' repository' (some reference') →
        Configuration.expressionOf text = Configuration.expressionOf other → text = other := by
  have hok {text e : String} : Configuration.expressionOf text = .ok e ↔ _ :=
    expressionOf_eq_ok_iff.trans expression?_eq_some_iff
  refine ⟨?_, fun e => hok, ?_, fun owner repository reference => ?_, ?_⟩
  · rw [expressionOf_eq_ok_iff]
    refine ⟨fun h => ?_, expression?_of_isPath⟩
    rcases expression?_eq_some_iff.1 h with ⟨hpath, -⟩ | ⟨owner, repository, reference, hnames, htext⟩
    · exact hpath
    · exact absurd htext hnames.ne_tarball
  · rw [expressionOf_eq_error_iff, Option.eq_none_iff_forall_ne_some]
    constructor
    · intro h
      refine ⟨fun hpath => h text (expression?_of_isPath hpath), ?_⟩
      rintro ⟨owner, repository, reference, hnames⟩
      exact h _ (expression?_eq_some_iff.2 (.inr ⟨owner, repository, reference, hnames, rfl⟩))
    · rintro ⟨hpath, hnone⟩ e he
      rcases expression?_eq_some_iff.1 he with ⟨h, -⟩ | ⟨owner, repository, reference, hnames, -⟩
      · exact hpath h
      · exact hnone ⟨owner, repository, reference, hnames⟩
  · rw [names_iff, ← parts?_eq_some_iff, parts?_eq_match?]
  · intro other owner repository reference owner' repository' reference' hnames hnames' h
    have htext := hok.2 (.inr ⟨_, _, _, hnames, rfl⟩)
    have hother := hok.2 (.inr ⟨_, _, _, hnames', rfl⟩)
    rw [h, hother] at htext
    obtain ⟨rfl, rfl, rfl⟩ := tarball_inj hnames'.owner hnames.owner hnames'.repository hnames.repository
      (Except.ok.inj htext)
    rw [hnames.spelled, hnames'.spelled]

/-- Two references of one repository, of which one holds a slash. -/
theorem expression_of_references :
    let release := "github:lopsided98/nix-ros-overlay/release/24.05"
    let branch := "github:lopsided98/nix-ros-overlay/master"
    Configuration.expressionOf release = .ok
        "builtins.fetchTarball \"https://github.com/lopsided98/nix-ros-overlay/archive/release/24.05.tar.gz\"" ∧
      Configuration.expressionOf release ≠ Configuration.expressionOf branch := by
  intro release branch
  have hrelease : Names release "lopsided98" "nix-ros-overlay" (some "release/24.05") := by
    constructor <;> decide +kernel
  have hbranch : Names branch "lopsided98" "nix-ros-overlay" (some "master") := by
    constructor <;> decide +kernel
  obtain ⟨-, haccepted, -, -, happart⟩ := expression_iff_spelled release
  refine ⟨(haccepted _).2 (.inr ⟨_, _, _, hrelease, by decide +kernel⟩), fun h => ?_⟩
  exact absurd (happart _ _ _ _ _ _ _ hrelease hbranch h) (by decide +kernel)

/-- A reference without an owner is accepted, for an archive that is not there. -/
theorem expression_without_owner :
    let text := "github:/nix-ros-overlay"
    Configuration.expressionOf text =
        .ok "builtins.fetchTarball \"https://github.com//nix-ros-overlay/archive/HEAD.tar.gz\"" ∧
      ¬ ∃ owner repository reference, Names text owner repository reference ∧ owner ≠ "" ∧ repository ≠ "" ∧
        reference ≠ some "" := by
  intro text
  have hnames : Names text "" "nix-ros-overlay" none := by constructor <;> decide +kernel
  refine ⟨by decide +kernel, ?_⟩
  rintro ⟨owner, repository, reference, hother, howner, -⟩
  exact howner (hother.unique hnames).1

end RosRecipes.FlakeReference
