import Mathlib.Data.List.TakeWhile
import RosRecipes.Proofs.Text.Pattern
import RosRecipes.Proofs.Text.Split
import RosRecipes.Source

/-!
# Addresses of repositories

An address that names a repository of GitHub matches a pattern (`Host.addressPattern`): the owner reaches to the next
slash, and the repository is the shortest name after which `.git`, a path, or nothing follows.

* The host is detected by that pattern (`detect_eq_match?`).
* On one line, the repository reaches to the next slash, or else to the end without one `.git` (`repository?_eq`), so
  an address is split into an owner, a repository and what may follow it (`detect_splits_address`).
-/

namespace RosRecipes.Host

open Text (Match Pattern)

variable {α : Type} {url owner repository rest : List Char}

/-- What an address of GitHub begins with. -/
def base : String := "https://github.com/"

/-- Does a line go on with this character? -/
def inLine (c : Char) : Bool := c ≠ '\n'

/-- What may follow the name of a repository. -/
def endingPattern : Pattern :=
  .seq (.optional (.either (.text ".git".toList) (.seq (.text ['/']) (.greedy inLine)))) .finish

/-- The addresses of GitHub. -/
def addressPattern : Pattern :=
  .seq (.text base.toList)
    (.seq (.group "owner" (.greedy (· ≠ '/')))
      (.seq (.text ['/']) (.seq (.group "repository" (.lazy inLine)) endingPattern)))

/-! ### The pattern -/

theorem isEnding_of_ne {c : Char} (h : c ≠ '/') (rest : List Char) :
    isEnding (c :: rest) = decide (c :: rest = ".git".toList) := by
  unfold isEnding
  split
  · next heq => cases heq
  · next heq => exact absurd (List.cons.inj heq).1 h
  · rfl

private theorem isEmpty_dropWhile_inLine (path : List Char) :
    (path.dropWhile inLine).isEmpty = decide ('\n' ∉ path) := by
  rw [Bool.eq_iff_iff, List.isEmpty_iff, List.dropWhile_eq_nil_iff, decide_eq_true_iff]
  constructor
  · intro h hmem
    exact absurd (h _ hmem) (by decide)
  · intro h c hc
    exact decide_eq_true fun heq => h (heq ▸ hc)

/-- The ending matches just where the name of a repository may end, and it has no groups. -/
private theorem findSome?_endingPattern (s : List Char) (f : List (String × List Char) → α) :
    (endingPattern.ways s).findSome? (fun m => some (f m.groups)) = if isEnding s then some (f []) else none := by
  have hpath : ∀ path : List Char, ((Pattern.greedy inLine).ways path).findSome? (fun m =>
      if m.rest.isEmpty then some (f m.groups) else none) = if '\n' ∈ path then none else some (f []) := by
    intro path
    rw [Pattern.findSome?_greedy fun _ _ _ _ => if_neg nofun]
    dsimp only
    rw [isEmpty_dropWhile_inLine]
    simp
  unfold endingPattern
  rw [Pattern.findSome?_seq, Pattern.findSome?_optional, Pattern.findSome?_either, Pattern.findSome?_text,
    Pattern.findSome?_seq, Pattern.findSome?_text]
  simp only [Pattern.findSome?_finish, Match.append, List.append_nil, List.nil_append, hpath]
  cases s with
  | nil => rfl
  | cons c rest =>
    by_cases hslash : c = '/'
    · subst hslash
      by_cases hline : '\n' ∈ rest
      · simp [Text.dropStart?, isEnding, hline]
      · simp [Text.dropStart?, isEnding, hline]
    · have hdrop : Text.dropStart? ['/'] (c :: rest) = none := if_neg (Ne.symm hslash)
      rw [hdrop, isEnding_of_ne hslash]
      cases hgit : Text.dropStart? ".git".toList (c :: rest) with
      | none =>
        have hne : c :: rest ≠ ".git".toList := by
          rintro heq
          rw [heq] at hgit
          cases hgit
        rw [decide_eq_false hne]
        rfl
      | some after =>
        have heq := Text.eq_of_dropStart? hgit
        rw [heq]
        cases after <;> simp

/-- Being tried from the shortest name on, the repository is the first one after which a name may end. -/
private theorem findSome?_runs_inLine (s : List Char) :
    (Text.runs inLine s).findSome? (fun (name, after) => if isEnding after then some name else none) =
      repository? s := by
  induction s with
  | nil => rfl
  | cons c s ih =>
    rw [Text.runs, repository?, List.findSome?_cons]
    dsimp only
    by_cases hending : isEnding (c :: s)
    · rw [if_pos hending, if_pos hending]
    · rw [if_neg hending, if_neg hending]
      dsimp only
      by_cases hline : c = '\n'
      · rw [if_pos hline, if_neg (by simp [inLine, hline])]
        rfl
      · rw [if_neg hline, if_pos (by simpa [inLine] using hline), List.findSome?_map, ← ih, List.map_findSome?]
        refine congrArg (List.findSome? · _) (funext fun found => ?_)
        dsimp only [Function.comp]
        split <;> rfl

/-- What the groups of the pattern hold is the owner and the repository. -/
theorem match?_addressPattern (url : List Char) :
    (addressPattern.match? url).map (fun m => (m.group "owner", m.group "repository")) = ownerAndRepository? url := by
  have hending : ∀ owner name after : List Char, (endingPattern.ways after).findSome? (fun n =>
      some ((List.lookup "owner" (("owner", owner) :: ("repository", name) :: n.groups)).getD [],
        (List.lookup "repository" (("owner", owner) :: ("repository", name) :: n.groups)).getD [])) =
      if isEnding after then some (owner, name) else none := fun owner name after =>
    findSome?_endingPattern after fun groups =>
      ((List.lookup "owner" (("owner", owner) :: ("repository", name) :: groups)).getD [],
        (List.lookup "repository" (("owner", owner) :: ("repository", name) :: groups)).getD [])
  have hname : ∀ owner name : List Char, (Text.runs inLine name).findSome? (fun (name, after) =>
      if isEnding after then some (owner, name) else none) = (repository? name).map (owner, ·) := by
    intro owner name
    rw [← findSome?_runs_inLine, List.map_findSome?]
    refine congrArg (List.findSome? · _) (funext fun found => ?_)
    dsimp only [Function.comp]
    split <;> rfl
  have hslash : ∀ (c : Char) (rest : List Char), decide (c ≠ '/') = true → Text.dropStart? ['/'] (c :: rest) = none :=
    fun c rest hc => if_neg (Ne.symm (of_decide_eq_true hc))
  unfold addressPattern ownerAndRepository?
  rw [Pattern.match?_map, Pattern.findSome?_seq, Pattern.findSome?_text]
  simp only [Pattern.findSome?_seq, Pattern.findSome?_group, Pattern.findSome?_lazy, Pattern.findSome?_text,
    Match.append, Match.named, Match.group, List.nil_append]
  refine congrArg (Option.bind _) (funext fun rest => ?_)
  rw [Pattern.findSome?_greedy fun taken c rest hc => by rw [hslash c rest hc, Option.bind_none]]
  simp only [List.nil_append, List.cons_append, hending, hname]
  split
  · next name hdrop =>
    rw [hdrop]
    show (repository? name).map _ = _
    cases repository? name <;> rfl
  · next hno =>
    cases hdrop : rest.dropWhile fun c => decide (c ≠ '/') with
    | nil => rfl
    | cons c name =>
      have hne : c ≠ '/' := by
        rintro rfl
        exact hno name hdrop
      rw [hslash c name (decide_eq_true hne)]
      rfl

/-- The host of an address is GitHub just if the address matches the pattern. -/
theorem detect_eq_match? (url : String) :
    detect url = match addressPattern.match? url.toList with
      | some m => .gitHub (.ofList (m.group "owner")) (.ofList (m.group "repository"))
      | none => .generic url := by
  unfold detect
  rw [← match?_addressPattern]
  cases addressPattern.match? url.toList <;> rfl

/-! ### Splitting an address -/

/-- The repository that the end of an address names: what stands before the first slash, or else all of it without one
`.git` at its end. -/
def repositoryIn (rest : List Char) : List Char :=
  if '/' ∈ rest then rest.takeWhile (· ≠ '/')
  else if ".git".toList <:+ rest then rest.take (rest.length - 4)
  else rest

theorem repositoryIn_cons {c : Char} (hslash : c ≠ '/') (hgit : c :: rest ≠ ".git".toList) :
    repositoryIn (c :: rest) = c :: repositoryIn rest := by
  have hmem : '/' ∈ c :: rest ↔ '/' ∈ rest := by simp [Ne.symm hslash]
  have hsuffix : ".git".toList <:+ c :: rest ↔ ".git".toList <:+ rest := by
    rw [List.suffix_cons_iff]
    exact or_iff_right (Ne.symm hgit)
  unfold repositoryIn
  simp only [hmem, hsuffix]
  split
  · exact List.takeWhile_cons_of_pos (by simpa using hslash)
  · split
    · next hends =>
      have hlength : 4 ≤ rest.length := hends.length_le
      rw [List.length_cons, show rest.length + 1 - 4 = rest.length - 4 + 1 by omega, List.take_succ_cons]
    · rfl

/-- A repository is found just if the address ends in the same line. -/
theorem repository?_eq (rest : List Char) :
    repository? rest = if '\n' ∈ rest then none else some (repositoryIn rest) := by
  induction rest with
  | nil => rfl
  | cons c rest ih =>
    unfold repository?
    by_cases hslash : c = '/'
    · subst hslash
      by_cases hline : '\n' ∈ rest
      · simp [isEnding, hline, ih]
      · simp [isEnding, hline, repositoryIn]
    · rw [isEnding_of_ne hslash]
      by_cases hgit : c :: rest = ".git".toList
      · rw [decide_eq_true hgit, if_pos rfl, hgit]
        decide
      · rw [decide_eq_false hgit, if_neg nofun, ih, repositoryIn_cons hslash hgit]
        by_cases hc : c = '\n'
        · simp [hc]
        · by_cases hline : '\n' ∈ rest
          · simp [hc, hline]
          · simp [hc, hline, Ne.symm hc]

/-- The address is that of GitHub, with an owner that reaches to the next slash, and ends in the same line. -/
def Splits (url owner rest : List Char) : Prop := url = base.toList ++ owner ++ '/' :: rest ∧ '/' ∉ owner ∧ '\n' ∉ rest

theorem ownerAndRepository?_eq_some_iff :
    ownerAndRepository? url = some (owner, repository) ↔
      ∃ rest, Splits url owner rest ∧ repository = repositoryIn rest := by
  unfold ownerAndRepository?
  constructor
  · intro h
    obtain ⟨after, hbase, h⟩ := Option.bind_eq_some_iff.1 h
    split at h
    · next name hdrop =>
      obtain ⟨found, hfound, hsome⟩ := Option.bind_eq_some_iff.1 h
      obtain ⟨rfl, rfl⟩ := Prod.mk.inj (Option.some.inj hsome)
      rw [repository?_eq] at hfound
      split at hfound
      · cases hfound
      · next hline =>
        refine ⟨name, ⟨?_, fun hmem => ?_, hline⟩, (Option.some.inj hfound).symm⟩
        · rw [List.append_assoc, ← hdrop, List.takeWhile_append_dropWhile]
          exact Text.eq_of_dropStart? hbase
        · exact absurd (List.mem_takeWhile_imp hmem) (by decide)
    · cases h
  · rintro ⟨rest, ⟨rfl, howner, hline⟩, rfl⟩
    have htake := Text.takeWhile_ne_append howner rest
    have hdrop := Text.dropWhile_ne_append howner rest
    have hbase : Text.dropStart? base.toList (base.toList ++ owner ++ '/' :: rest) = some (owner ++ '/' :: rest) := by
      rw [List.append_assoc]
      exact Text.dropStart?_append base.toList _
    refine Option.bind_eq_some_iff.2 ⟨_, hbase, ?_⟩
    rw [hdrop, htake]
    show (repository? rest).bind (fun name => some (owner, name)) = _
    rw [repository?_eq, if_neg hline]
    rfl

/-- What follows the owner, in an address of GitHub that is spelled out. -/
private theorem toList_address (owner repository ending : String) :
    (base ++ owner ++ "/" ++ repository ++ ending).toList =
      base.toList ++ owner.toList ++ '/' :: (repository.toList ++ ending.toList) := by
  have hslash : "/".toList = ['/'] := rfl
  simp only [String.toList_append, hslash, List.append_assoc, List.cons_append, List.nil_append]

theorem detect_eq_gitHub_iff {url owner repository : String} :
    detect url = .gitHub owner repository ↔
      ∃ rest, Splits url.toList owner.toList rest ∧ repository.toList = repositoryIn rest := by
  rw [← ownerAndRepository?_eq_some_iff]
  unfold detect
  cases ownerAndRepository? url.toList with
  | none => exact ⟨nofun, nofun⟩
  | some found =>
    obtain ⟨o, r⟩ := found
    simp only [gitHub.injEq, Option.some.injEq, Prod.mk.injEq, ← String.toList_inj, String.toList_ofList]

/-- All that the end of an address says besides the repository is `.git` or a path. -/
theorem exists_ending (rest : List Char) : '/' ∉ repositoryIn rest ∧ ∃ ending, rest = repositoryIn rest ++ ending ∧
    (ending = [] ∨ ending = ".git".toList ∨ ∃ path, ending = '/' :: path) := by
  unfold repositoryIn
  split
  · next hslash =>
    obtain ⟨before, after, rfl, hbefore⟩ := List.eq_append_cons_of_mem hslash
    rw [Text.takeWhile_ne_append hbefore after]
    exact ⟨hbefore, _, rfl, .inr (.inr ⟨after, rfl⟩)⟩
  · next hslash =>
    split
    · next hends =>
      obtain ⟨start, rfl⟩ := hends
      rw [List.length_append, List.take_left' (by rfl)]
      exact ⟨fun hmem => hslash (List.mem_append_left _ hmem), _, rfl, .inr (.inl rfl)⟩
    · exact ⟨hslash, [], (List.append_nil rest).symm, .inl rfl⟩

/-- A name is found again without an ending, before `.git` and before a path. -/
private theorem repositoryIn_spellings {name : List Char} (hslash : '/' ∉ name) (hgit : ¬ ".git".toList <:+ name)
    (path : List Char) :
    repositoryIn name = name ∧ repositoryIn (name ++ ".git".toList) = name ∧
      repositoryIn (name ++ '/' :: path) = name := by
  refine ⟨?_, ?_, ?_⟩
  · rw [repositoryIn, if_neg hslash, if_neg hgit]
  · have hnot : '/' ∉ name ++ ".git".toList := by
      rw [List.mem_append, not_or]
      exact ⟨hslash, by decide⟩
    rw [repositoryIn, if_neg hnot, if_pos (List.suffix_append _ _), List.length_append, List.take_left' (by rfl)]
  · rw [repositoryIn, if_pos (by simp), Text.takeWhile_ne_append hslash path]

theorem detect_eq_generic {url : String} (h : ¬ ∃ owner rest, Splits url.toList owner rest) :
    detect url = .generic url := by
  unfold detect
  cases hsplit : ownerAndRepository? url.toList with
  | none => rfl
  | some found =>
    obtain ⟨rest, hrest, -⟩ := ownerAndRepository?_eq_some_iff.1 hsplit
    exact absurd ⟨found.1, rest, hrest⟩ h

/-- Nothing of an address is lost but `.git` or a path. -/
theorem address_of_detect {url owner repository : String} (h : detect url = .gitHub owner repository) :
    '/' ∉ owner.toList ∧ '/' ∉ repository.toList ∧
      ∃ ending : String, url = base ++ owner ++ "/" ++ repository ++ ending ∧
        (ending = "" ∨ ending = ".git" ∨ ∃ path, ending = "/" ++ path) := by
  obtain ⟨rest, ⟨hurl, howner, -⟩, hrepository⟩ := detect_eq_gitHub_iff.1 h
  obtain ⟨hslash, ending, hrest, hending⟩ := exists_ending rest
  rw [← hrepository] at hslash hrest
  refine ⟨howner, hslash, .ofList ending, ?_, ?_⟩
  · rw [← String.toList_inj, toList_address, hurl, hrest, String.toList_ofList]
  · rcases hending with rfl | rfl | ⟨path, rfl⟩
    · exact .inl rfl
    · exact .inr (.inl String.ofList_toList)
    · exact .inr (.inr ⟨.ofList path, String.ofList_cons⟩)

/-- All addresses of one repository. -/
theorem detect_address {owner repository path ending : String} (howner : '/' ∉ owner.toList)
    (hslash : '/' ∉ repository.toList) (hline : '\n' ∉ repository.toList) (hgit : ¬ ".git".toList <:+ repository.toList)
    (hpath : '\n' ∉ path.toList) (hending : ending ∈ ["", ".git", "/" ++ path]) :
    detect (base ++ owner ++ "/" ++ repository ++ ending) = .gitHub owner repository := by
  obtain ⟨hplain, hsuffixed, hlonger⟩ := repositoryIn_spellings hslash hgit path.toList
  have hlongerText : ("/" ++ path).toList = '/' :: path.toList := String.toList_append
  have hfound : '\n' ∉ ending.toList ∧ repositoryIn (repository.toList ++ ending.toList) = repository.toList := by
    simp only [List.mem_cons, List.not_mem_nil, or_false] at hending
    rcases hending with rfl | rfl | rfl
    · refine ⟨by decide, ?_⟩
      show repositoryIn (repository.toList ++ []) = _
      rw [List.append_nil, hplain]
    · exact ⟨by decide, hsuffixed⟩
    · rw [hlongerText, hlonger, List.mem_cons, not_or]
      exact ⟨⟨by decide, hpath⟩, rfl⟩
  rw [detect_eq_gitHub_iff, toList_address]
  refine ⟨_, ⟨rfl, howner, ?_⟩, hfound.2.symm⟩
  rw [List.mem_append, not_or]
  exact ⟨hline, hfound.1⟩

/-- The host of an address is found by a pattern.  It is GitHub just if the address goes on in one line after the owner
and a slash; the repository is what stands before the next slash, or else all without one `.git`.  So nothing of the
address is lost but `.git` or a path, and it does not matter which of them follows the name.  All other addresses are
kept. -/
theorem detect_splits_address (url : String) :
    (detect url = match addressPattern.match? url.toList with
      | some m => .gitHub (.ofList (m.group "owner")) (.ofList (m.group "repository"))
      | none => .generic url) ∧
    (∀ owner repository : String, detect url = .gitHub owner repository ↔
      ∃ rest, Splits url.toList owner.toList rest ∧ repository.toList = repositoryIn rest) ∧
    ((¬ ∃ owner rest, Splits url.toList owner rest) → detect url = .generic url) ∧
    (∀ owner repository : String, detect url = .gitHub owner repository → '/' ∉ owner.toList ∧ '/' ∉ repository.toList ∧
      ∃ ending : String, url = base ++ owner ++ "/" ++ repository ++ ending ∧
        (ending = "" ∨ ending = ".git" ∨ ∃ path, ending = "/" ++ path)) ∧
    (∀ owner repository path : String, '/' ∉ owner.toList → '/' ∉ repository.toList → '\n' ∉ repository.toList →
      ¬ ".git".toList <:+ repository.toList → '\n' ∉ path.toList →
      ∀ ending ∈ ["", ".git", "/" ++ path], url = base ++ owner ++ "/" ++ repository ++ ending →
        detect url = .gitHub owner repository) := by
  refine ⟨detect_eq_match? url, fun _ _ => detect_eq_gitHub_iff, detect_eq_generic, fun _ _ => address_of_detect, ?_⟩
  rintro owner repository path howner hslash hline hgit hpath ending hending rfl
  exact detect_address howner hslash hline hgit hpath hending

/-- Three addresses of one repository, and one of a repository whose name ends in `.git`. -/
theorem detect_spellings :
    detect "https://github.com/acme/foo.bar" = .gitHub "acme" "foo.bar" ∧
      detect "https://github.com/acme/foo.bar.git" = .gitHub "acme" "foo.bar" ∧
      detect "https://github.com/acme/foo.bar/tree/main" = .gitHub "acme" "foo.bar" ∧
      detect "https://github.com/acme/foo.git/tree/main" = .gitHub "acme" "foo.git" := by
  have hthree : ∀ ending ∈ ["", ".git", "/" ++ "tree/main"],
      detect (base ++ "acme" ++ "/" ++ "foo.bar" ++ ending) = .gitHub "acme" "foo.bar" := fun ending hending =>
    (detect_splits_address _).2.2.2.2 "acme" "foo.bar" "tree/main" (by decide) (by decide) (by decide) (by decide)
      (by decide) ending hending rfl
  refine ⟨hthree "" (by simp), hthree ".git" (by simp), hthree "/tree/main" (by simp), ?_⟩
  refine ((detect_splits_address _).2.1 "acme" "foo.git").2 ⟨"foo.git/tree/main".toList, ⟨?_, by decide, by decide⟩, ?_⟩
  · decide
  · decide

end RosRecipes.Host
