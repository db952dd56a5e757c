import Mathlib.Data.List.Basic
import RosRecipes.Generation.TopLevel
import RosRecipes.Proofs.Text.ByteOrder
import RosRecipes.Proofs.Text.Lines

/-!
# Packages in the overlay and in the shell

The overlay has one attribute for each name of a package, with the file of the last package of that name
(`mem_overlayEntries`), on a line of its own (`overlay_eq`).  The shell lists the dependencies that are no packages
(`mem_external`), each on a line of its own (`shell_eq`).

* The order of the packages does not matter for the shell (`external_perm`), and for the overlay only between packages
  of one name (`overlayEntries_perm`).
-/

namespace RosRecipes.PackageSet

variable {entries : List (String × String)} {packages others : List GeneratedPackage} {n file : String}

/-! ### Attributes of the overlay -/

private theorem get?_foldl_insert (entries : List (String × String)) (t : Table String String) :
    (entries.foldl (fun (t : Table String String) (name, file) => t.insert name file) t).get? n =
      (entries.reverse.lookup n).or (t.get? n) := by
  induction entries generalizing t with
  | nil => rfl
  | cons entry entries ih =>
    obtain ⟨name, file⟩ := entry
    rw [List.foldl_cons, ih, Table.get?_insert, List.reverse_cons, List.lookup_append, Option.or_assoc]
    by_cases hname : n = name
    · simp [hname]
    · have hne : (n == name) = false := by simpa using hname
      simp [List.lookup_cons, hne, hname]

/-- What is found from the end is the last of its name. -/
private theorem lookup_reverse_iff : entries.reverse.lookup n = some file ↔
    ∃ before after, entries = before ++ (n, file) :: after ∧ ∀ e ∈ after, e.1 ≠ n := by
  rw [List.lookup_eq_some_iff]
  constructor
  · rintro ⟨l, m, hsplit, hne⟩
    refine ⟨m.reverse, l.reverse, ?_, fun e he heq => ?_⟩
    · rw [← List.reverse_reverse entries, hsplit]
      simp
    · have hother := hne e (List.mem_reverse.1 he)
      rw [heq] at hother
      simp at hother
  · rintro ⟨before, after, rfl, hne⟩
    refine ⟨after.reverse, before.reverse, by simp, fun e he => ?_⟩
    exact bne_iff_ne.2 (Ne.symm (hne e (List.mem_reverse.1 he)))

private theorem overlayEntries_eq (entries : List (String × String)) :
    overlayEntries entries = (NameSet.ofList (entries.map (·.1))).toList.filterMap fun name =>
      (entries.reverse.lookup name).map (name, ·) := by
  unfold overlayEntries
  simp only [get?_foldl_insert, Table.get?_empty, Option.or_none]

/-- The overlay has each name once, in order. -/
theorem overlayEntries_names (entries : List (String × String)) :
    (overlayEntries entries).map (·.1) = (NameSet.ofList (entries.map (·.1))).toList := by
  have hfound : ∀ name ∈ (NameSet.ofList (entries.map (·.1))).toList,
      ((entries.reverse.lookup name).map (name, ·)).map Prod.fst = some (id name) := by
    intro name hname
    rw [← NameSet.mem_def, NameSet.mem_ofList] at hname
    cases hlookup : entries.reverse.lookup name with
    | some file => rfl
    | none =>
      obtain ⟨entry, hentry, rfl⟩ := List.mem_map.1 hname
      have hne := List.lookup_eq_none_iff.1 hlookup entry (List.mem_reverse.2 hentry)
      simp at hne
  rw [overlayEntries_eq, List.map_filterMap, List.filterMap_eq_map_iff_forall_eq_some.2 hfound, List.map_id]

/-- Each name has the file of the last entry with that name. -/
theorem mem_overlayEntries : (n, file) ∈ overlayEntries entries ↔
    ∃ before after, entries = before ++ (n, file) :: after ∧ ∀ e ∈ after, e.1 ≠ n := by
  rw [overlayEntries_eq, ← lookup_reverse_iff, List.mem_filterMap]
  constructor
  · rintro ⟨name, -, hname⟩
    obtain ⟨file', hlookup, heq⟩ := Option.map_eq_some_iff.1 hname
    cases heq
    exact hlookup
  · intro hlookup
    obtain ⟨before, after, hsplit, -⟩ := lookup_reverse_iff.1 hlookup
    refine ⟨n, ?_, by rw [hlookup]; rfl⟩
    rw [← NameSet.mem_def, NameSet.mem_ofList, hsplit]
    simp

/-- If no name comes twice, the order of the entries does not matter. -/
theorem overlayEntries_perm {entries' : List (String × String)} (h : entries.Perm entries')
    (hdistinct : (entries.map (·.1)).Nodup) : overlayEntries entries = overlayEntries entries' := by
  have hmem : ∀ {l : List (String × String)} {n file}, (l.map (·.1)).Nodup →
      (l.reverse.lookup n = some file ↔ (n, file) ∈ l) := by
    intro l n file hl
    rw [lookup_reverse_iff]
    constructor
    · rintro ⟨before, after, rfl, -⟩
      simp
    · intro hmem
      obtain ⟨before, after, rfl⟩ := List.append_of_mem hmem
      refine ⟨before, after, rfl, fun e he heq => ?_⟩
      rw [List.map_append, List.map_cons] at hl
      exact (List.nodup_cons.1 (List.nodup_append.1 hl).2.1).1 (List.mem_map.2 ⟨e, he, heq⟩)
  have hdistinct' : (entries'.map (·.1)).Nodup := (h.map _).nodup_iff.1 hdistinct
  have hlookup : ∀ n, entries.reverse.lookup n = entries'.reverse.lookup n :=
    fun n => Option.ext fun file => by rw [hmem hdistinct, hmem hdistinct', h.mem_iff]
  have hnames : NameSet.ofList (entries.map (·.1)) = NameSet.ofList (entries'.map (·.1)) :=
    NameSet.ext_mem fun n => by rw [NameSet.mem_ofList, NameSet.mem_ofList, (h.map _).mem_iff]
  rw [overlayEntries_eq, overlayEntries_eq, hnames]
  simp only [hlookup]

/-- The line of an attribute, which calls the recipe in the file. -/
def attributeLine (a : String × String) : String :=
  "  " ++ a.1 ++ " = final.callPackage ./" ++ a.2 ++ " \x7b\x7d;\n"

/-- Each attribute of the overlay is on a line of its own, and nothing else is between the braces. -/
theorem overlay_eq (attributes : List (String × String)) :
    overlay attributes = "final: prev:\n\x7b\n" ++ String.join (attributes.map attributeLine) ++ "\x7d\n" := by
  have hlines : Text.unlines (attributes.map fun (name, file) =>
      "  " ++ name ++ " = final.callPackage ./" ++ file ++ " \x7b\x7d;") =
        String.join (attributes.map attributeLine) := by
    rw [Text.unlines, List.map_map]
    refine congrArg String.join (List.map_congr_left fun a _ => ?_)
    rw [← String.toList_inj]
    simp [attributeLine]
  rw [overlay, Text.unlines_append, Text.unlines_append, hlines]
  rfl

/-! ### Lines of the shell -/

private theorem mem_foldl_dependencies {s : NameSet} :
    n ∈ packages.foldl (fun all p => all ∪ p.dependencies) s ↔ n ∈ s ∨ ∃ p ∈ packages, n ∈ p.dependencies := by
  induction packages generalizing s with
  | nil => simp
  | cons p packages ih =>
    rw [List.foldl_cons, ih, NameSet.mem_union, or_assoc]
    simp only [List.mem_cons, exists_eq_or_imp]

/-- What is needed from outside is some package's dependency and no package. -/
theorem mem_external :
    n ∈ external packages ↔ (∃ p ∈ packages, n ∈ p.dependencies) ∧ ∀ p ∈ packages, p.name ≠ n := by
  unfold external
  rw [NameSet.mem_sdiff, mem_foldl_dependencies, NameSet.mem_ofList, List.mem_map]
  simp

theorem external_perm (h : packages.Perm others) : external packages = external others := by
  refine NameSet.ext_mem fun n => ?_
  rw [mem_external, mem_external]
  simp only [h.mem_iff]

/-- A name that is told from its lines: it is not blank, and it breaks no line. -/
structure FillsLine (s : List Char) : Prop where
  visible : s.all Text.isBlank = false
  single : '\n' ∉ s
  ended : s.getLast? ≠ some '\r'

instance (s : List Char) : Decidable (FillsLine s) :=
  decidable_of_iff (s.all Text.isBlank = false ∧ '\n' ∉ s ∧ s.getLast? ≠ some '\r')
    ⟨fun ⟨visible, single, ended⟩ => ⟨visible, single, ended⟩, fun ⟨visible, single, ended⟩ => ⟨visible, single, ended⟩⟩

private theorem toList_intercalate (names : List String) :
    (String.intercalate "\n" names).toList = Text.join ['\n'] (names.map String.toList) := by
  rw [String.toList_intercalate]
  induction names with
  | nil => rfl
  | cons name names ih =>
    cases names with
    | nil => simp [Text.join]
    | cons next names =>
      have hmore : (next :: names).map String.toList ≠ [] := by simp
      rw [List.map_cons, Text.join_cons _ hmore, ← ih, List.map_cons, List.intercalate_cons_cons, List.append_assoc]
      rfl

/-- Every name is indented. -/
theorem indent_intercalate {start : String} {names : List String} (h : ∀ name ∈ names, FillsLine name.toList) :
    indent start (String.intercalate "\n" names) = String.intercalate "\n" (names.map (start ++ ·)) := by
  rw [← String.toList_inj, toList_intercalate]
  unfold indent
  rw [String.toList_ofList, toList_intercalate]
  by_cases hne : names = []
  · subst hne
    rfl
  · have hlines : ∀ l ∈ names.map String.toList, FillsLine l := by simpa using h
    have hne' : names.map String.toList ≠ [] := by simpa using hne
    have hfilled : (names.map String.toList).getLast hne' ≠ [] := by
      intro hempty
      have hlast := hlines _ (List.getLast_mem hne')
      rw [hempty] at hlast
      exact absurd hlast.visible (by decide)
    rw [Text.lines_join_of (fun l hl => (hlines l hl).single) (fun l hl => (hlines l hl).ended) hne' hfilled]
    congr 1
    rw [List.map_map, List.map_map]
    refine List.map_congr_left fun name hname => ?_
    dsimp only [Function.comp_apply]
    rw [(h name hname).visible, if_neg Bool.false_ne_true, String.toList_append]

/-- The text of the shell down to the first package in its list. -/
def aboveListed (overlay distribution commandLine : String) : String :=
  generatedBy commandLine ++ Text.unlines (shellStart overlay distribution) ++
    "          [\n            # Dependencies from package.xml files\n"

/-- The text of the shell from the end of the list on. -/
def belowListed : String := "          ]\n" ++ Text.unlines shellEnd

/-- The lines of the packages in the list; without packages one empty line is left. -/
def listedLines (names : List String) : String :=
  if names = [] then "\n" else String.join (names.map fun name => "            " ++ name ++ "\n")

theorem shell_eq_indent (overlay distribution commandLine : String) (names : List String) :
    shell overlay distribution names commandLine = aboveListed overlay distribution commandLine ++
      (indent "            " (String.intercalate "\n" names) ++ "\n") ++ belowListed := by
  have hlist : Text.unlines ["          [", "            # Dependencies from package.xml files",
      indent "            " (String.intercalate "\n" names), "          ]"] =
        "          [\n            # Dependencies from package.xml files\n" ++
          (indent "            " (String.intercalate "\n" names) ++ "\n") ++ "          ]\n" := by
    rw [← String.toList_inj]
    simp [Text.unlines]
  rw [shell, Text.unlines_append, Text.unlines_append, hlist, aboveListed, belowListed]
  simp only [String.append_assoc]

/-- Names that are told from their lines are listed on a line each. -/
theorem listedLines_eq {names : List String} (h : ∀ name ∈ names, FillsLine name.toList) :
    indent "            " (String.intercalate "\n" names) ++ "\n" = listedLines names := by
  rw [indent_intercalate h]
  unfold listedLines
  by_cases hne : names = []
  · subst hne
    rfl
  · have hlines : names.map ("            " ++ ·) ≠ [] := by simpa using hne
    have hunlines := Text.toList_unlines hlines
    rw [if_neg hne, ← String.toList_inj, String.toList_append, toList_intercalate]
    refine hunlines.symm.trans ?_
    rw [Text.unlines, List.map_map]
    rfl

/-- Each package of the shell is on a line of its own. -/
theorem shell_eq {overlay distribution commandLine : String} {names : List String}
    (h : ∀ name ∈ names, FillsLine name.toList) :
    shell overlay distribution names commandLine =
      aboveListed overlay distribution commandLine ++ listedLines names ++ belowListed := by
  rw [shell_eq_indent, listedLines_eq h]

end RosRecipes.PackageSet
