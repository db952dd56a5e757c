import Mathlib.Data.List.TakeWhile
import RosRecipes.Configuration
import RosRecipes.Proofs.Path.Relative

/-!
# Sources in the local tree

A recipe in a common directory refers to the directory of its manifest by a path from the common directory.  That path
is written with a dot first, and it leads to the place above the manifest (`localSource_leads_back`).

* `exists_ofDirectory`: the written path has the moves of the way, and the dot.
-/

namespace RosRecipes

open Path (follow components moves)

variable {c : Configuration} {cwd directory manifest : Path}

/-! ### Written paths -/

private theorem filterMap_split_slashes {s : List Char} (h : ∀ a ∈ s, a = '/') :
    (Text.split '/' s).filterMap Path.componentOf? = [] := by
  induction s with
  | nil => rfl
  | cons a s ih =>
    obtain ⟨rfl, hs⟩ := List.forall_mem_cons.1 h
    rw [← List.nil_append ('/' :: s), Text.split_append, List.filterMap_append, ih hs]
    rfl

/-- Slashes at the end do not matter. -/
private theorem filterMap_split_append_slashes {s slashes : List Char} (h : ∀ a ∈ slashes, a = '/') :
    (Text.split '/' (s ++ slashes)).filterMap Path.componentOf? = (Text.split '/' s).filterMap Path.componentOf? := by
  cases slashes with
  | nil => rw [List.append_nil]
  | cons a slashes =>
    obtain ⟨rfl, hslashes⟩ := List.forall_mem_cons.1 h
    rw [Text.split_append, List.filterMap_append, filterMap_split_slashes hslashes, List.append_nil]

/-- The path of a directory is written after a dot, with the same moves. -/
theorem Source.exists_ofDirectory (text : String) :
    ∃ rest, Source.ofDirectory text = .directory ("./" ++ rest) ∧ moves ⟨rest⟩ = moves ⟨text⟩ := by
  let path := (text.toList.reverse.dropWhile (· = '/')).reverse
  have htext : text.toList = path ++ (text.toList.reverse.takeWhile (· = '/')).reverse := by
    rw [← List.reverse_append, List.takeWhile_append_dropWhile, List.reverse_reverse]
  have hslashes : ∀ a ∈ (text.toList.reverse.takeWhile (· = '/')).reverse, a = '/' := by
    intro a ha
    simpa using List.mem_takeWhile_imp (List.mem_reverse.1 ha)
  have hmoves : moves ⟨text⟩ = (Text.split '/' path).filterMap Path.componentOf? := by
    unfold moves Path.segments
    rw [htext, filterMap_split_append_slashes hslashes]
  unfold ofDirectory
  by_cases hhere : path = [] ∨ path = ['.']
  · refine ⟨".", if_pos hhere, ?_⟩
    rw [hmoves]
    rcases hhere with hpath | hpath
    · rw [hpath]
      rfl
    · rw [hpath]
      rfl
  · refine ⟨.ofList path, if_neg hhere, ?_⟩
    rw [hmoves, moves, Path.segments, String.toList_ofList]

/-! ### Ways back -/

namespace Configuration

/-- The source of a package in a common directory leads back to its manifest: from the common directory it leads to the
place above the manifest.  It goes up first, once for each name of the common directory that is not shared, and then
down. -/
theorem localSource_leads_back (h : c.commonDirectory? = some directory) (hcwd : cwd.isAbsolute = true)
    (hdirectory : directory.isEmpty = false) (hmanifest : manifest.isEmpty = false)
    (hoff : ¬ manifest.normalForm cwd <+: directory.normalForm cwd) :
    ∃ rest, c.localSource cwd manifest = .directory ("./" ++ rest) ∧
      ((cwd.join directory).join ⟨"./" ++ rest⟩).normalForm cwd = (manifest.normalForm cwd).dropLast ∧
      ∃ shared up down, directory.normalForm cwd = shared ++ up ∧ manifest.normalForm cwd = shared ++ down ∧
        (∀ x ∈ up.head?, ∀ y ∈ down.head?, x ≠ y) ∧
        components ⟨"./" ++ rest⟩ = .current :: (List.replicate up.length .parent ++ down.dropLast) ∧
        .parent ∉ down.dropLast := by
  obtain ⟨shared, up, down, hhere, hthere, hsplit, hnames, hdown, hway⟩ :=
    Path.moves_relativeTo hcwd hmanifest hdirectory
  have hne : down ≠ [] := by
    rintro rfl
    refine hoff ⟨up, ?_⟩
    rw [hthere, hhere, List.append_nil, List.cons_append]
  have hmoves : (manifest.relativeTo directory cwd).moves ≠ [] := by
    rw [hway]
    exact List.append_ne_nil_of_right_ne_nil _ hne
  obtain ⟨above, habove, hmovesAbove⟩ := Path.exists_parent? hmoves
  obtain ⟨rest, hsource, hrest⟩ := Source.exists_ofDirectory above.text
  have hback : moves ⟨rest⟩ = List.replicate up.length .parent ++ down.dropLast := by
    rw [hrest, hmovesAbove, hway, List.dropLast_append_of_ne_nil hne]
  have hkept : ∀ c ∈ down.dropLast, c.IsName := fun c hc => hdown c (List.dropLast_subset _ hc)
  refine ⟨rest, ?_, ?_, .root :: shared, up, down, hhere, hthere, hsplit, ?_, fun hup => (hkept _ hup).2 rfl⟩
  · unfold localSource
    rw [h]
    dsimp only
    rw [habove]
    exact hsource
  · obtain ⟨hplace, habsolute⟩ := Path.normalForm_join_cwd hcwd hdirectory cwd
    obtain ⟨hshared, hup⟩ := List.forall_mem_append.1 hnames
    calc ((cwd.join directory).join ⟨"./" ++ rest⟩).normalForm cwd
        = (moves ⟨rest⟩).foldl follow (directory.normalForm cwd) := by
          rw [Path.normalForm_join_of_isAbsolute habsolute (Path.isAbsolute_dot rest), hplace, Path.moves_dot ⟨rest⟩]
      _ = down.dropLast.foldl follow (.root :: shared) := by
          rw [hback, List.foldl_append, hhere,
            Path.foldl_follow_replicate (Path.root_not_mem_names hshared) (Path.root_not_mem_names hup)]
      _ = .root :: shared ++ down.dropLast := Path.foldl_follow_names hkept _
      _ = (manifest.normalForm cwd).dropLast := by
          rw [hthere, ← List.cons_append, List.dropLast_append_of_ne_nil hne]
  · rw [Path.components_dot, hback]

/-- A manifest beside the working directory, and recipes in a directory that is written with a repeated slash and a dot
at the end. -/
theorem localSource_leads_back_beside :
    let c : Configuration := { directory := some ⟨"out//nix/."⟩ }
    c.localSource ⟨"/ws/b"⟩ ⟨"../src/./a/package.xml"⟩ = .directory "./../../../src/a" ∧
    ∃ rest, c.localSource ⟨"/ws/b"⟩ ⟨"../src/./a/package.xml"⟩ = .directory ("./" ++ rest) ∧
      Path.normalForm ((Path.join ⟨"/ws/b"⟩ ⟨"out//nix/."⟩).join ⟨"./" ++ rest⟩) ⟨"/ws/b"⟩ =
        [.root, .name "ws", .name "src", .name "a"] := by
  intro c
  have hoff : ¬ Path.normalForm ⟨"../src/./a/package.xml"⟩ ⟨"/ws/b"⟩ <+: Path.normalForm ⟨"out//nix/."⟩ ⟨"/ws/b"⟩ := by
    decide +kernel
  obtain ⟨rest, hsource, hplace, -⟩ :=
    localSource_leads_back (c := c) rfl (by decide) (by decide) (by decide) hoff
  exact ⟨by decide +kernel, rest, hsource, hplace.trans (by decide +kernel)⟩

end Configuration

end RosRecipes
