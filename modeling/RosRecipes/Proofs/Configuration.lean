import RosRecipes.Configuration
import RosRecipes.Proofs.Path

/-!
# What the overlay refers to

The overlay is in the directory of the files beside the recipes, and it refers to a recipe by a path below that
directory.  The overlay finds the recipe if that path leads to the file of the recipe, whatever the working directory
(`Configuration.OverlayFinds`).

* Without a common directory, just the recipes with relative paths are found, and with one those that are directly in
  it (`overlayFinds_iff`).
* A recipe next to a manifest with an absolute path is not found, nor is one that is named into a directory below
  (`overlay_misses`).
-/

namespace RosRecipes.Configuration

open Path (follow)

variable {c : Configuration} {manifest : Path} {package : String}

/-- The file to which the overlay refers for the recipe of a package. -/
def referredFile (c : Configuration) (manifest : Path) (package : String) : Path :=
  c.topDirectory / ("./" ++ c.overlayEntry (c.outputFile manifest package))

/-- What the overlay refers to is the file of the recipe, from every working directory. -/
def OverlayFinds (c : Configuration) (manifest : Path) (package : String) : Prop :=
  ∀ cwd : Path, cwd.isAbsolute = true →
    (c.referredFile manifest package).normalForm cwd = (c.outputFile manifest package).normalForm cwd

/-! ### Recipes next to their manifests -/

/-- Without a common directory the overlay has the whole path of a recipe, and takes it for a relative one. -/
private theorem normalForm_referredFile_of_none (h : c.commonDirectory? = none) (cwd : Path) :
    (c.referredFile manifest package).normalForm cwd =
      (c.outputFile manifest package).moves.foldl follow (cwd.components.foldl follow []) := by
  have hrelative := Path.isAbsolute_dot (c.outputFile manifest package).text
  have hfile : c.referredFile manifest package =
      Path.join ⟨"."⟩ ⟨"./" ++ (c.outputFile manifest package).text⟩ := by
    unfold referredFile topDirectory overlayEntry
    rw [h]
    rfl
  rw [hfile, Path.normalForm_eq (Path.isEmpty_join (Path.isEmpty_dot _) _), Path.moves_join hrelative, Path.moves_dot,
    Path.isAbsolute_join hrelative]
  rfl

private theorem overlayFinds_of_none (h : c.commonDirectory? = none)
    (hfile : (c.outputFile manifest package).isEmpty = false) :
    c.OverlayFinds manifest package ↔ (c.outputFile manifest package).isAbsolute = false := by
  constructor
  · intro hfinds
    cases habsolute : (c.outputFile manifest package).isAbsolute with
    | false => rfl
    | true =>
      -- A working directory that is deeper than the path has moves tells the two apart.
      let n := (c.outputFile manifest package).moves.length + 1
      have hsame := hfinds (.below n) (Path.isAbsolute_below n)
      rw [normalForm_referredFile_of_none h, Path.normalForm_eq hfile, habsolute, if_pos rfl,
        Path.foldl_components_below] at hsame
      have hnames : .root ∉ List.replicate n (Path.Component.name "x") := by simp [List.mem_replicate]
      exact absurd hsame (Path.foldl_follow_ne (Path.root_not_mem_moves _) hnames List.not_mem_nil (by simp [n]))
  · intro hrelative cwd _
    rw [normalForm_referredFile_of_none h, Path.normalForm_eq hfile, hrelative]
    rfl

/-! ### Recipes in a common directory -/

section

variable {directory : Path} {last : String} (h : c.commonDirectory? = some directory)

include h

theorem outputFile_of_some : c.outputFile manifest package = directory / c.fileName package := by
  unfold outputFile
  rw [h]
  rfl

variable (hlast : Path.fileName? ⟨c.fileName package⟩ = some last)

include hlast

/-- With a common directory the overlay has the last name of a recipe only. -/
private theorem normalForm_referredFile_of_some (cwd : Path) :
    (c.referredFile manifest package).normalForm cwd = (directory / ".").normalForm cwd ++ [.name last] := by
  have hmem : .name last ∈ Path.moves ⟨c.fileName package⟩ :=
    List.mem_of_getLast? (Path.fileName?_eq_some_iff.1 hlast)
  have hentry : (directory / c.fileName package).fileName? = some last := Path.fileName?_join hlast directory
  have hfile : c.referredFile manifest package = directory.join ⟨"./" ++ last⟩ := by
    unfold referredFile topDirectory overlayEntry
    rw [h, outputFile_of_some h, hentry]
    rfl
  rw [hfile, Path.normalForm_join (Path.isEmpty_dot last), Path.foldl_components, Path.moves_dot_name hmem,
    Path.isAbsolute_dot]
  rfl

private theorem normalForm_outputFile_of_some (cwd : Path) :
    (c.outputFile manifest package).normalForm cwd =
      (Path.components ⟨c.fileName package⟩).dropLast.foldl follow ((directory / ".").normalForm cwd) ++
        [.name last] := by
  have hcomponents : (Path.components ⟨c.fileName package⟩).getLast? = some (.name last) := by
    unfold Path.fileName? at hlast
    split at hlast
    · next heq =>
      cases hlast
      exact heq
    · cases hlast
  have hnonempty : Path.isEmpty ⟨c.fileName package⟩ = false := by
    rw [Bool.eq_false_iff]
    intro hempty
    have hnone : c.fileName package = "" := String.isEmpty_iff.1 hempty
    rw [hnone] at hcomponents
    cases hcomponents
  obtain ⟨init, hinit⟩ := List.getLast?_eq_some_iff.1 hcomponents
  rw [outputFile_of_some h]
  refine (Path.normalForm_join hnonempty directory cwd).trans ?_
  rw [hinit, List.foldl_append, List.dropLast_concat]
  rfl

private theorem overlayFinds_of_some :
    c.OverlayFinds manifest package ↔ ∀ cwd : Path, cwd.isAbsolute = true →
      (Path.components ⟨c.fileName package⟩).dropLast.foldl follow ((directory / ".").normalForm cwd) =
        (directory / ".").normalForm cwd := by
  unfold OverlayFinds
  refine forall_congr' fun cwd => imp_congr_right fun _ => ?_
  rw [normalForm_referredFile_of_some h hlast, normalForm_outputFile_of_some h hlast, List.append_cancel_right_eq]
  exact eq_comm

/-- A recipe with a plain name is directly in the common directory. -/
private theorem overlayFinds_of_plain (hplain : '/' ∉ (c.fileName package).toList) :
    c.OverlayFinds manifest package := by
  obtain ⟨start, hcomponents, habsolute, hrelative⟩ := Path.components_eq ⟨c.fileName package⟩
  have hsegments : Path.segments ⟨c.fileName package⟩ = [(c.fileName package).toList] := Text.split_of_not_mem hplain
  have hstart : start = none ∨ start = some .current := by
    refine hrelative ?_
    rw [Bool.eq_false_iff]
    intro h
    obtain ⟨first, rest, hslash⟩ := Path.segments_of_absolute h
    rw [hsegments] at hslash
    exact absurd (congrArg List.length hslash) (by simp)
  have hmoves : Path.moves ⟨c.fileName package⟩ = [.name last] := by
    have hsome := Path.fileName?_eq_some_iff.1 hlast
    unfold Path.moves at hsome ⊢
    rw [hsegments] at hsome ⊢
    cases hcomponent : Path.componentOf? (c.fileName package).toList with
    | none =>
      rw [List.filterMap_cons_none hcomponent] at hsome
      cases hsome
    | some component =>
      rw [List.filterMap_cons_some hcomponent] at hsome ⊢
      cases hsome
      rfl
  rw [overlayFinds_of_some h hlast, hcomponents, hmoves, List.dropLast_concat]
  intro cwd _
  rcases hstart with rfl | rfl
  · rfl
  · rfl

end

private theorem fileName?_nix {s : String} (h : '/' ∉ s.toList) :
    Path.fileName? ⟨s ++ ".nix"⟩ = some (s ++ ".nix") ∧ '/' ∉ (s ++ ".nix").toList := by
  have hplain : '/' ∉ (s ++ ".nix").toList := by simpa using h
  have hlength : 4 ≤ (s ++ ".nix").toList.length := by simp
  have hstep : Path.componentOf? (s ++ ".nix").toList = some (.name (s ++ ".nix")) := by
    unfold Path.componentOf? Path.isIdle
    have hlong : ∀ short : List Char, short.length < 4 → (s ++ ".nix").toList ≠ short := by
      rintro short hshort heq
      rw [heq] at hlength
      omega
    rw [beq_false_of_ne (hlong [] (by decide)), beq_false_of_ne (hlong ['.'] (by decide)), Bool.or_false,
      if_neg Bool.false_ne_true, if_neg (hlong ['.', '.'] (by decide)), String.ofList_toList]
  refine ⟨Path.fileName?_eq_some_iff.2 ?_, hplain⟩
  unfold Path.moves Path.segments
  rw [Text.split_of_not_mem hplain, List.filterMap_cons_some hstep]
  rfl

/-- Files that are named after packages go into one directory. -/
theorem exists_commonDirectory (h : ∀ name, c.naming ≠ .fixed name) :
    ∃ directory, c.commonDirectory? = some directory := by
  unfold commonDirectory?
  split
  · exact ⟨_, rfl⟩
  · next hfixed => exact absurd hfixed (h _)
  · exact ⟨_, rfl⟩

/-- They have plain names. -/
theorem fileName_of_named (h : ∀ name, c.naming ≠ .fixed name) (hpackage : '/' ∉ package.toList) :
    Path.fileName? ⟨c.fileName package⟩ = some (c.fileName package) ∧ '/' ∉ (c.fileName package).toList := by
  unfold fileName
  cases hnaming : c.naming with
  | fixed name => exact absurd hnaming (h name)
  | package => exact fileName?_nix hpackage
  | attributeOf =>
    refine fileName?_nix ?_
    unfold attributeName
    rw [String.toList_ofList, List.mem_map]
    rintro ⟨a, ha, hslash⟩
    split at hslash
    · cases hslash
    · exact hpackage (hslash ▸ ha)

private theorem overlayFinds_of_named (h : ∀ name, c.naming ≠ .fixed name) (hpackage : '/' ∉ package.toList) :
    c.OverlayFinds manifest package := by
  obtain ⟨directory, hdirectory⟩ := exists_commonDirectory h
  obtain ⟨hlast, hplain⟩ := fileName_of_named h hpackage
  exact overlayFinds_of_plain hdirectory hlast hplain

/-- Without a common directory the overlay finds the recipes with relative paths, and no others.  With one it finds a
recipe if the directories in the name of its file lead back to where they start; so it finds all recipes whose files
are named after packages without a slash. -/
theorem overlayFinds_iff (c : Configuration) (manifest : Path) (package : String) :
    (c.commonDirectory? = none → (c.outputFile manifest package).isEmpty = false →
      (c.OverlayFinds manifest package ↔ (c.outputFile manifest package).isAbsolute = false)) ∧
    (∀ directory last, c.commonDirectory? = some directory → Path.fileName? ⟨c.fileName package⟩ = some last →
      (c.OverlayFinds manifest package ↔ ∀ cwd : Path, cwd.isAbsolute = true →
        (Path.components ⟨c.fileName package⟩).dropLast.foldl follow ((directory / ".").normalForm cwd) =
          (directory / ".").normalForm cwd)) ∧
    ((∀ name, c.naming ≠ .fixed name) → '/' ∉ package.toList → c.OverlayFinds manifest package) :=
  ⟨overlayFinds_of_none, fun _ _ => overlayFinds_of_some, overlayFinds_of_named⟩

/-- A recipe next to a manifest with a relative path is found, and so is one whose name leads out of a directory again,
and one that is named after its package. -/
theorem overlay_finds :
    let beside : Configuration := {}
    let around : Configuration := { naming := .fixed "nix/../package.nix", directory := some ⟨"out"⟩ }
    let named : Configuration := { naming := .attributeOf }
    beside.OverlayFinds ⟨"src/my_pkg/package.xml"⟩ "my_pkg" ∧ around.OverlayFinds ⟨"package.xml"⟩ "my_pkg" ∧
      named.OverlayFinds ⟨"/src/my_pkg/package.xml"⟩ "my_pkg" := by
  intro beside around named
  refine ⟨?_, ?_, ?_⟩
  · exact ((overlayFinds_iff beside ⟨"src/my_pkg/package.xml"⟩ "my_pkg").1 rfl (by decide)).2 (by decide)
  · refine ((overlayFinds_iff around ⟨"package.xml"⟩ "my_pkg").2.1 ⟨"out"⟩ "package.nix" rfl (by decide)).2 ?_
    intro cwd _
    have hcomponents : (Path.components ⟨around.fileName "my_pkg"⟩).dropLast = [.name "nix", .parent] := by
      decide +kernel
    rw [hcomponents]
    simp [follow]
  · exact (overlayFinds_iff named ⟨"/src/my_pkg/package.xml"⟩ "my_pkg").2.2 (fun _ => nofun) (by decide)

/-- A recipe next to a manifest with an absolute path is not found, nor is one in a directory below the common one. -/
theorem overlay_misses :
    let absolute : Configuration := {}
    let nested : Configuration := { naming := .fixed "sub/package.nix", directory := some ⟨"out"⟩ }
    ¬ absolute.OverlayFinds ⟨"/ws/pkg/package.xml"⟩ "pkg" ∧ ¬ nested.OverlayFinds ⟨"pkg/package.xml"⟩ "pkg" := by
  intro absolute nested
  constructor
  · intro h
    exact absurd (h ⟨"/ws"⟩ rfl) (by decide +kernel)
  · intro h
    exact absurd (h ⟨"/ws"⟩ rfl) (by decide +kernel)

end RosRecipes.Configuration
