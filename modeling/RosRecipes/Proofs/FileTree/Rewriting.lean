import RosRecipes.Proofs.FileTree.Growth
import RosRecipes.Proofs.Text.Split

/-!
# Writing what is there

A file that can be read can be written, with the directories above it: the way to the parent of its path is the
beginning of the way to the file (`isDirectory_parent`).  Writing the content that the file has changes nothing
(`same_of_write_read`).
-/

namespace RosRecipes

/-! ### Parents of paths -/

namespace Text

theorem join_prefix {sep : Char} {pieces : List (List Char)} (hne : pieces ≠ []) (more : List (List Char)) :
    join [sep] pieces <+: join [sep] (pieces ++ more) := by
  induction pieces with
  | nil => exact absurd rfl hne
  | cons piece pieces ih =>
    by_cases hlast : pieces = []
    · subst hlast
      cases more with
      | nil => exact List.prefix_refl _
      | cons next more =>
        rw [List.singleton_append, join_cons piece (List.cons_ne_nil next more)]
        exact List.prefix_append piece _
    · rw [List.cons_append, join_cons piece hlast, join_cons piece (by simp [hlast])]
      obtain ⟨rest, hrest⟩ := ih hlast
      exact ⟨rest, by rw [← hrest, List.append_assoc, List.cons_append]⟩

theorem join_eq_nil {sep : Char} {pieces : List (List Char)} (h : join [sep] pieces = []) :
    pieces = [] ∨ pieces = [[]] := by
  match pieces with
  | [] => exact .inl rfl
  | [piece] => exact .inr (congrArg ([·]) h)
  | piece :: next :: more =>
    rw [join_cons piece (List.cons_ne_nil next more)] at h
    exact absurd h (by simp)

end Text

namespace Path

variable {p above : Path}

/-- What is dropped at the end names nothing. -/
theorem dropIdleEnd_append (segments : List (List Char)) :
    ∃ idle, segments = dropIdleEnd segments ++ idle ∧ ∀ segment ∈ idle, isIdle segment = true := by
  refine ⟨(segments.reverse.takeWhile isIdle).reverse, ?_, fun segment hmem => ?_⟩
  · rw [dropIdleEnd, ← List.reverse_append, List.takeWhile_append_dropWhile, List.reverse_reverse]
  · exact List.all_eq_true.1 List.all_takeWhile segment (List.mem_reverse.1 hmem)

/-- What is left ends in a piece that names something. -/
theorem dropIdleEnd_last {segments front : List (List Char)} {last : List Char}
    (h : dropIdleEnd segments = front ++ [last]) : isIdle last = false := by
  have hreverse : segments.reverse.dropWhile isIdle = last :: front.reverse := by
    rw [← List.reverse_reverse (segments.reverse.dropWhile isIdle)]
    show (dropIdleEnd segments).reverse = _
    rw [h, List.reverse_append]
    rfl
  have hhead := List.head?_dropWhile_not isIdle segments.reverse
  rw [hreverse] at hhead
  simpa using hhead

theorem dropIdleEnd_ne_singleton_nil (segments : List (List Char)) : dropIdleEnd segments ≠ [[]] := by
  intro h
  have hidle := dropIdleEnd_last (h.trans (List.nil_append [[]]).symm)
  cases hidle

/-- The pieces of a path that are not empty. -/
def steps (p : Path) : List (List Char) := p.segments.filter (· ≠ [])

/-- A dot at the end of the path is all of it. -/
def Trimmed (p : Path) : Prop := p.steps.getLast? = some ['.'] → p.steps = [['.']]

/-- The way to the parent is the beginning of the way, up to pieces that name nothing. -/
structure IsParent (above p : Path) : Prop where
  text : above.text.toList <+: p.text.toList
  segments : ∃ front idle last rest, p.segments = front ++ (idle ++ last :: rest) ∧
    (∀ segment ∈ idle, isIdle segment = true) ∧ isIdle last = false ∧ (∀ segment ∈ rest, isIdle segment = true) ∧
    (above.segments = front ∨ above.segments = front ++ [[]])
  trimmed : above.Trimmed

theorem toList_text_eq (p : Path) : p.text.toList = Text.join ['/'] p.segments := (Text.join_split '/' _).symm

private theorem isParent_of_join {front idle rest : List (List Char)} {last : List Char} (hfront : front ≠ [])
    (hp : p.segments = front ++ (idle ++ last :: rest)) (hidle : ∀ segment ∈ idle, isIdle segment = true)
    (hlast : isIdle last = false) (hrest : ∀ segment ∈ rest, isIdle segment = true)
    (htext : above.text.toList = Text.join ['/'] front)
    (hend : front = [['.']] ∨ ∀ init segment, front = init ++ [segment] → isIdle segment = false) :
    above.IsParent p := by
  have hpieces : ∀ piece ∈ front, '/' ∉ piece := by
    refine fun piece hmem => Text.not_mem_of_mem_split (s := p.text.toList) ?_
    show piece ∈ p.segments
    rw [hp]
    exact List.mem_append_left _ hmem
  have hsegments : above.segments = front := by rw [segments, htext, Text.split_join hfront hpieces]
  refine ⟨?_, ⟨front, idle, last, rest, hp, hidle, hlast, hrest, .inl hsegments⟩, fun hdot => ?_⟩
  · rw [htext, toList_text_eq, hp]
    exact Text.join_prefix hfront _
  · unfold steps at hdot ⊢
    rw [hsegments] at hdot ⊢
    rcases hend with rfl | hend
    · rfl
    · obtain ⟨init, segment, rfl⟩ := (List.eq_nil_or_concat front).resolve_left hfront
      rw [List.concat_eq_append] at hdot hend
      have hnamed := hend init segment rfl
      have hne : segment ≠ [] := by
        rintro rfl
        cases hnamed
      rw [List.filter_append, List.filter_cons_of_pos (by simpa using hne), List.filter_nil,
        List.getLast?_concat] at hdot
      cases hdot
      cases hnamed

/-- The parent keeps the anchor, and the pieces up to the last that names something. -/
private theorem split_of_parent? {start : Option Component} {body : List (List Char)}
    (hanchor : p.anchor = (start, body))
    (h : p.parent? = some above) (hne : above.isEmpty = false) :
    ∃ inner idle last rest, body = inner ++ (idle ++ last :: rest) ∧ (∀ segment ∈ idle, isIdle segment = true) ∧
      isIdle last = false ∧ (∀ segment ∈ rest, isIdle segment = true) ∧ inner ≠ [[]] ∧
      (∀ init segment, inner = init ++ [segment] → isIdle segment = false) ∧ above = ofAnchor start inner := by
  unfold parent? at h
  rw [hanchor] at h
  dsimp only at h
  obtain ⟨rest, hbody, hrest⟩ := dropIdleEnd_append body
  rcases List.eq_nil_or_concat (dropIdleEnd body) with hkept | ⟨kept, last, hkept⟩
  · -- The path names no entry: its parent, if there is one, is the empty path.
    rw [hkept] at h
    dsimp only at h
    split at h
    · cases h
      cases hne
    · cases h
  · rw [List.concat_eq_append] at hkept
    rw [hkept] at h
    split at h
    · next hnil => exact absurd hnil (by simp)
    rw [List.dropLast_concat] at h
    obtain ⟨idle, hfront, hidle⟩ := dropIdleEnd_append kept
    have hinner := dropIdleEnd_ne_singleton_nil kept
    refine ⟨dropIdleEnd kept, idle, last, rest, ?_, hidle, dropIdleEnd_last hkept, hrest, hinner, ?_, ?_⟩
    · calc
        body = kept ++ [last] ++ rest := by rw [← hkept]; exact hbody
        _ = dropIdleEnd kept ++ idle ++ [last] ++ rest := by rw [← hfront]
        _ = dropIdleEnd kept ++ (idle ++ last :: rest) := by simp
    · exact fun init segment hinit => dropIdleEnd_last hinit
    · cases h
      rfl

theorem isParent_of_parent? (h : p.parent? = some above) (hne : above.isEmpty = false) : above.IsParent p := by
  rcases hanchor : p.anchor with ⟨start, body⟩
  obtain ⟨inner, idle, last, rest, hbody, hidle, hlast, hrest, hinner, hend, rfl⟩ := split_of_parent? hanchor h hne
  have hempty : Text.join ['/'] inner = [] → inner = [] := fun hjoin =>
    (Text.join_eq_nil hjoin).resolve_right hinner
  have hcons : ∀ first, inner ≠ [] → ∀ init segment, first :: inner = init ++ [segment] → isIdle segment = false := by
    intro first hnone init segment hinit
    obtain ⟨front, last', hfront⟩ := (List.eq_nil_or_concat inner).resolve_left hnone
    rw [List.concat_eq_append] at hfront
    rw [hfront, ← List.cons_append] at hinit
    obtain ⟨-, hsame⟩ := List.append_inj' hinit rfl
    cases hsame
    exact hend front _ hfront
  unfold anchor at hanchor
  split at hanchor
  · -- The path starts at the root.
    next segment more hsegments =>
    cases hanchor
    rw [hbody] at hsegments
    by_cases hnone : inner = []
    · subst hnone
      refine ⟨?_, ⟨[[]], idle, last, rest, hsegments, hidle, hlast, hrest, .inr rfl⟩, nofun⟩
      rw [toList_text_eq p, hsegments, Text.join_cons [] (by simp)]
      exact List.prefix_append ['/'] _
    · refine isParent_of_join (List.cons_ne_nil [] inner) hsegments hidle hlast hrest ?_ (.inr (hcons [] hnone))
      rw [Text.join_cons [] hnone]
      show ("/" ++ String.ofList (Text.join ['/'] inner)).toList = _
      simp
  · -- The path starts with a dot.
    next more hsegments =>
    cases hanchor
    rw [hbody] at hsegments
    by_cases hnone : inner = []
    · subst hnone
      exact isParent_of_join (List.cons_ne_nil ['.'] []) hsegments hidle hlast hrest rfl (.inl rfl)
    · refine isParent_of_join (List.cons_ne_nil ['.'] inner) hsegments hidle hlast hrest ?_ (.inr (hcons ['.'] hnone))
      have hjoin : (Text.join ['/'] inner).isEmpty = false := by
        rw [List.isEmpty_eq_false_iff]
        exact mt hempty hnone
      rw [Text.join_cons _ hnone, ofAnchor]
      simp [hjoin]
  · cases hanchor
    have hfilled : inner ≠ [] := by
      rintro rfl
      cases hne
    refine isParent_of_join hfilled hbody hidle hlast hrest ?_ (.inr hend)
    simp [ofAnchor]

end Path

/-! ### Directories that are there -/

namespace FileTree

variable {t u : FileTree} {p above : Path} {target : Target} {here there : Place}

/-- A path can be followed if its text is the beginning of one that can, and its steps can be taken. -/
private theorem walk_of_prefix (hwalk : t.walk p = .ok target) (htext : above.text.toList <+: p.text.toList)
    (hne : above.isEmpty = false) (hsteps : above.segments.foldlM t.step (t.start above) = .ok there) :
    ∃ target', t.walk above = .ok target' ∧ target'.place = there := by
  obtain ⟨rest, hrest⟩ := htext
  unfold walk at hwalk ⊢
  split at hwalk
  · cases hwalk
  next hzero =>
  split at hwalk
  · cases hwalk
  split at hwalk
  · cases hwalk
  next hlength =>
  rw [← hrest, Text.byteLength_append] at hlength
  rw [if_neg, if_neg, if_neg (by omega)]
  · unfold start at hsteps
    rw [hsteps]
    exact ⟨_, rfl, rfl⟩
  · simp [hne]
  · rw [← hrest] at hzero
    exact fun hmem => hzero (List.mem_append_left _ hmem)

theorem foldlM_append_ok {first second : List (List Char)}
    (h : (first ++ second).foldlM t.step here = .ok there) :
    ∃ between, first.foldlM t.step here = .ok between ∧ second.foldlM t.step between = .ok there := by
  rw [List.foldlM_append] at h
  cases hfirst : first.foldlM t.step here with
  | error e =>
    rw [hfirst] at h
    cases h
  | ok between =>
    rw [hfirst] at h
    exact ⟨between, rfl, h⟩

theorem foldlM_idle {idle : List (List Char)} (hidle : ∀ segment ∈ idle, Path.isIdle segment = true)
    (h : idle.foldlM t.step here = .ok there) : there = here := by
  induction idle generalizing here with
  | nil =>
    cases h
    rfl
  | cons segment idle ih =>
    have hsegment := hidle segment List.mem_cons_self
    obtain ⟨next, hstep, hrest⟩ := foldlM_step_cons h
    have hstay : next = here := by
      rcases step_cases hstep with ⟨-, hnext⟩ | ⟨hne, -, ⟨-, hnext⟩ | ⟨rfl, -⟩ | ⟨hdot, -, -⟩⟩
      · exact hnext
      · exact hnext
      · cases hsegment
      · simp [Path.isIdle, hne, hdot] at hsegment
    rw [ih (fun s hs => hidle s (List.mem_cons_of_mem _ hs)) hrest, hstay]

theorem directory_of_step {segment : List Char} (hsegment : Path.isIdle segment = false)
    (h : t.step here segment = .ok there) : t.find? here = some .directory := by
  rcases step_cases h with ⟨rfl, -⟩ | ⟨-, hdir, -⟩
  · cases hsegment
  · exact hdir

/-- A path and the beginning of it start at the same place. -/
theorem start_of_within (htext : above.text.toList <+: p.text.toList) (hne : above.isEmpty = false) (t : FileTree) :
    t.start above = t.start p := by
  have habsolute : above.isAbsolute = p.isAbsolute := by
    obtain ⟨more, hmore⟩ := htext
    unfold Path.isAbsolute
    rw [← hmore]
    cases habove : above.text.toList with
    | nil =>
      rw [Path.isEmpty, String.toList_eq_nil_iff.1 habove] at hne
      cases hne
    | cons c cs => rfl
  unfold start
  rw [habsolute]

/-- The parent of a path that can be followed is a directory. -/
theorem isDirectory_parent (hwalk : t.walk p = .ok target) (habove : p.parent? = some above)
    (hne : above.isEmpty = false) : t.isDirectory above = true := by
  obtain ⟨htext, ⟨front, idle, last, rest, hsegments, hidle, hlast, -, hfront⟩, -⟩ :=
    Path.isParent_of_parent? habove hne
  have hstart : t.start above = t.start p := start_of_within htext hne t
  have hsteps := foldlM_of_walk hwalk
  rw [hsegments] at hsteps
  obtain ⟨place, hplace, hmore⟩ := foldlM_append_ok hsteps
  obtain ⟨stay, hstay, hend⟩ := foldlM_append_ok hmore
  rw [← List.singleton_append] at hend
  obtain ⟨next, hnext, -⟩ := foldlM_append_ok hend
  have hdirectory : t.find? place = some .directory := by
    rw [foldlM_idle hidle hstay] at hnext
    have hstep : t.step place last = .ok next := by simpa using hnext
    exact directory_of_step hlast hstep
  have hway : above.segments.foldlM t.step (t.start above) = .ok place := by
    rw [hstart]
    rcases hfront with hfront | hfront
    · rw [hfront, hplace]
    · rw [hfront, List.foldlM_append, hplace]
      rfl
  obtain ⟨target', htarget', rfl⟩ := walk_of_prefix hwalk htext hne hway
  unfold isDirectory
  rw [lookup_of_walk htarget', hdirectory]

/-! ### Files that are there -/

/-- No directory is created where something is. -/
theorem makeDirectory_of_standing {e : Entry} (hwalk : t.walk p = .ok target) (hfind : t.find? target.place = some e) :
    t.makeDirectory p = .error .exists := by
  unfold makeDirectory
  rw [hwalk]
  show (if (!target.named) = true then _ else _) = _
  rw [hfind]
  by_cases hnamed : (!target.named) = true
  · rw [if_pos hnamed]
  · rw [if_neg hnamed]

/-- Creating directories that are there changes nothing. -/
theorem makeDirectories_of_isDirectory (h : t.isDirectory p = true) : t.makeDirectories p = .ok t := by
  obtain ⟨target, hwalk, hfind⟩ := isDirectory_iff.1 h
  have hthere : t.makeDirectory p = .error .exists := makeDirectory_of_standing hwalk hfind
  unfold makeDirectories makeDirectoriesFrom
  by_cases hempty : p.isEmpty = true
  · rw [if_pos hempty]
  · rw [if_neg hempty, hthere]
    exact if_pos h

/-- Writing the content that a file has changes nothing. -/
theorem same_of_write_read {content : ByteArray} (h : t.read p = .ok content) :
    ∃ u, t.write p content = .ok u ∧ u.Same t := by
  obtain ⟨executable, hlookup⟩ := read_eq_ok_iff.1 h
  obtain ⟨target, hwalk, hdir, hfind⟩ := lookup_eq_file_iff.1 hlookup
  have hne : target.place ≠ [] := by
    intro heq
    rw [heq] at hfind
    cases hfind
  refine ⟨t.set target.place (.file content executable), ?_, rfl, fun place => ?_⟩
  · unfold write
    rw [hwalk]
    show (if target.directoryOnly = true then _ else _) = _
    rw [hdir, hfind]
    rfl
  · rw [find?_set _ hne]
    split
    · next heq => rw [heq, hfind]
    · rfl

end FileTree

end RosRecipes
