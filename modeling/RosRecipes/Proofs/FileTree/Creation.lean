import RosRecipes.Proofs.FileTree.Rewriting

/-!
# Writing with less around

What can be written into a tree that has grown can be written before it grew: directories that are missing are created,
and nothing is in the way that was not in the way later (`write_of_grows`).  The working directory has to exist
(`HomeStands`), since a path may lead up from it.

* `makeDirectories_of_grows`: the same for directories alone.
-/

namespace RosRecipes

namespace Path

variable {p : Path}

private theorem anchor_cases (p : Path) :
    (∃ body, p.anchor = (none, body) ∧ p.segments = body) ∨
    ∃ start first body, p.anchor = (some start, body) ∧ (start = .root ∨ start = .current) ∧
      p.segments = first :: body ∧ isIdle first = true := by
  unfold anchor
  split
  · next segment rest hsegments => exact .inr ⟨.root, [], segment :: rest, rfl, .inl rfl, hsegments, rfl⟩
  · next rest hsegments => exact .inr ⟨.current, ['.'], rest, rfl, .inr rfl, hsegments, rfl⟩
  · exact .inl ⟨p.segments, rfl, rfl⟩

private theorem isEmpty_ofAnchor {start : Component} (h : start = .root ∨ start = .current)
    (body : List (List Char)) : (ofAnchor (some start) body).isEmpty = false := by
  rcases h with rfl | rfl
  · simp [ofAnchor, isEmpty, Component.text]
  · unfold ofAnchor
    dsimp only
    split
    · rfl
    · simp [isEmpty]

/-- A path names an entry of its parent, which may be the empty path, or it names nothing. -/
theorem parent_cases (p : Path) :
    (∃ above, p.parent? = some above ∧ above.isEmpty = false) ∨
    (∃ above, p.parent? = some above ∧ above.isEmpty = true ∧ ∃ idle last rest, p.segments = idle ++ last :: rest ∧
      (∀ segment ∈ idle, isIdle segment = true) ∧ isIdle last = false ∧ ∀ segment ∈ rest, isIdle segment = true) ∨
    ∀ segment ∈ p.segments, isIdle segment = true := by
  have hsplit : ∀ start body, p.anchor = (start, body) → (∀ segment ∈ body, isIdle segment = true) ∨
      ∃ kept last rest, body = kept ++ last :: rest ∧ isIdle last = false ∧ (∀ segment ∈ rest, isIdle segment = true) ∧
        p.parent? = some (ofAnchor start (dropIdleEnd kept)) := by
    intro start body hanchor
    obtain ⟨rest, hbody, hrest⟩ := dropIdleEnd_append body
    rcases List.eq_nil_or_concat (dropIdleEnd body) with hnil | ⟨kept, last, hkept⟩
    · rw [hnil, List.nil_append] at hbody
      exact .inl fun segment hsegment => hrest segment (hbody ▸ hsegment)
    · rw [List.concat_eq_append] at hkept
      refine .inr ⟨kept, last, rest, ?_, dropIdleEnd_last hkept, hrest, ?_⟩
      · rw [hbody, hkept, List.append_assoc]
        rfl
      · unfold parent?
        rw [hanchor]
        dsimp only
        rw [hkept]
        split
        · next hnil => exact absurd hnil (by simp)
        · rw [List.dropLast_concat]
  rcases anchor_cases p with ⟨body, hanchor, hsegments⟩ | ⟨start, first, body, hanchor, hstart, hsegments, hfirst⟩
  · rcases hsplit none body hanchor with hidle | ⟨kept, last, rest, hbody, hlast, hrest, hparent⟩
    · exact .inr (.inr (hsegments ▸ hidle))
    · by_cases hempty : (ofAnchor none (dropIdleEnd kept)).isEmpty = true
      · refine .inr (.inl ⟨_, hparent, hempty, kept, last, rest, hsegments.trans hbody, ?_, hlast, hrest⟩)
        -- If the parent is empty, nothing is left of the pieces before the last that names something.
        have hjoin : Text.join ['/'] (dropIdleEnd kept) = [] := by simpa [ofAnchor, isEmpty] using hempty
        have hnone := (Text.join_eq_nil hjoin).resolve_right (dropIdleEnd_ne_singleton_nil kept)
        obtain ⟨idle, hkept, hidle⟩ := dropIdleEnd_append kept
        rw [hnone, List.nil_append] at hkept
        exact fun segment hsegment => hidle segment (hkept ▸ hsegment)
      · exact .inl ⟨_, hparent, by simpa using hempty⟩
  · rcases hsplit (some start) body hanchor with hidle | ⟨kept, last, rest, hbody, hlast, hrest, hparent⟩
    · refine .inr (.inr fun segment hsegment => ?_)
      rw [hsegments] at hsegment
      rcases List.mem_cons.1 hsegment with rfl | hsegment
      · exact hfirst
      · exact hidle segment hsegment
    · exact .inl ⟨_, hparent, isEmpty_ofAnchor hstart _⟩

end Path

namespace FileTree

variable {t u : FileTree} {p above : Path} {target : Target} {here there : Place}

/-! ### Places under directories -/

/-- The working directory exists, and all directories above it. -/
def HomeStands (t : FileTree) : Prop := ∀ n, t.find? (t.home.take n) = some .directory

theorem Grows.homeStands (h : t.Grows u) (hhome : t.HomeStands) : u.HomeStands := by
  intro n
  rw [← h.home]
  exact h.directory _ (hhome n)

/-- All above the place are directories. -/
def UnderDirectories (t : FileTree) (place : Place) : Prop :=
  ∀ n, n < place.length → t.find? (place.take n) = some .directory

theorem underDirectories_step {segment : List Char} (h : t.UnderDirectories here)
    (hstep : t.step here segment = .ok there) : t.UnderDirectories there := by
  rcases step_cases hstep with ⟨-, rfl⟩ | ⟨-, hdir, ⟨-, rfl⟩ | ⟨-, rfl⟩ | ⟨-, -, rfl⟩⟩
  · exact h
  · exact h
  · intro n hn
    rw [List.length_dropLast] at hn
    rw [List.dropLast_eq_take, List.take_take, Nat.min_eq_left (by omega)]
    exact h n (by omega)
  · intro n hn
    rw [List.length_append, List.length_singleton] at hn
    rw [List.take_append_of_le_length (by omega)]
    by_cases hlast : n = here.length
    · rw [hlast, List.take_length]
      exact hdir
    · exact h n (by omega)

theorem underDirectories_foldlM {segments : List (List Char)} (h : t.UnderDirectories here)
    (hsteps : segments.foldlM t.step here = .ok there) : t.UnderDirectories there := by
  induction segments generalizing here with
  | nil =>
    cases hsteps
    exact h
  | cons segment segments ih =>
    obtain ⟨next, hstep, hrest⟩ := foldlM_step_cons hsteps
    exact ih (underDirectories_step h hstep) hrest

/-- A walk starts at a directory, under directories. -/
theorem HomeStands.start (h : t.HomeStands) (p : Path) :
    t.find? (t.start p) = some .directory ∧ t.UnderDirectories (t.start p) := by
  unfold FileTree.start
  cases p.isAbsolute with
  | true => exact ⟨rfl, nofun⟩
  | false =>
    refine ⟨?_, fun n _ => h n⟩
    have hall := h t.home.length
    rw [List.take_length] at hall
    exact hall

/-! ### Steps of a walk -/

/-- Empty pieces do not count. -/
theorem foldlM_steps (t : FileTree) (segments : List (List Char)) (here : Place) :
    segments.foldlM t.step here = (segments.filter (· ≠ [])).foldlM t.step here := by
  induction segments generalizing here with
  | nil => rfl
  | cons segment segments ih =>
    by_cases hempty : segment = []
    · rw [List.filter_cons_of_neg (by simpa using hempty), List.foldlM_cons, ← ih here, hempty]
      rfl
    · rw [List.filter_cons_of_pos (by simpa using hempty), List.foldlM_cons, List.foldlM_cons]
      cases t.step here segment with
      | error e => rfl
      | ok next => exact ih next

/-- In a tree with less, a step comes to the same place, or it starts where nothing is. -/
theorem Grows.step_cases (h : t.Grows u) {segment : List Char} (hstep : u.step here segment = .ok there) :
    t.step here segment = .ok there ∨ t.step here segment = .error .notFound := by
  rcases FileTree.step_cases hstep with ⟨rfl, rfl⟩ | ⟨hne, hdir, -⟩
  · exact .inl rfl
  · cases hfind : t.find? here with
    | none =>
      refine .inr ?_
      unfold step
      rw [if_neg hne, hfind]
    | some e =>
      cases e with
      | directory => exact .inl ((step_congr (hfind.trans hdir.symm) segment).trans hstep)
      | file content executable =>
        obtain ⟨content', executable', hfile⟩ := h.file here content executable hfind
        rw [hdir] at hfile
        cases hfile

/-- In a tree with less, a walk comes to the same place, or to one where nothing is. -/
theorem Grows.foldlM_cases (h : t.Grows u) {segments : List (List Char)}
    (hsteps : segments.foldlM u.step here = .ok there) :
    segments.foldlM t.step here = .ok there ∨ segments.foldlM t.step here = .error .notFound := by
  induction segments generalizing here with
  | nil => exact .inl hsteps
  | cons segment segments ih =>
    obtain ⟨next, hstep, hrest⟩ := foldlM_step_cons hsteps
    rw [List.foldlM_cons]
    rcases h.step_cases hstep with hfirst | hfirst
    · rw [hfirst]
      exact ih hrest
    · rw [hfirst]
      exact .inr rfl

theorem Grows.start (h : t.Grows u) (p : Path) : t.start p = u.start p := by
  unfold FileTree.start
  rw [h.home]

/-- A path that can be followed later can be followed already, if its steps can be taken. -/
theorem Grows.walk_of_steps (h : t.Grows u) (hwalk : u.walk p = .ok target)
    (hsteps : p.segments.foldlM t.step (t.start p) = .ok there) : t.walk p = .ok target := by
  rw [← hwalk]
  refine walk_congr ?_
  rw [hsteps, ← h.start p]
  exact (foldlM_of_grows h hsteps).symm

theorem Grows.walk_cases (h : t.Grows u) (hwalk : u.walk p = .ok target) :
    t.walk p = .ok target ∨ t.walk p = .error .notFound := by
  have hsteps := foldlM_of_walk hwalk
  rw [← h.start p] at hsteps
  rcases h.foldlM_cases hsteps with hsteps | hsteps
  · exact .inl (h.walk_of_steps hwalk hsteps)
  · refine .inr ?_
    unfold FileTree.start at hsteps
    unfold FileTree.walk at hwalk ⊢
    split at hwalk
    · cases hwalk
    next hzero =>
    split at hwalk
    · cases hwalk
    next hempty =>
    split at hwalk
    · cases hwalk
    next hlong =>
    rw [if_neg hzero, if_neg hempty, if_neg hlong, hsteps]
    rfl

private theorem named_of_walk (hwalk : t.walk p = .ok target) :
    target.named = p.steps.getLast?.any fun s => s ≠ ['.'] && s ≠ ['.', '.'] := by
  unfold walk at hwalk
  split at hwalk
  · cases hwalk
  split at hwalk
  · cases hwalk
  split at hwalk
  · cases hwalk
  cases hplace : p.segments.foldlM t.step (if p.isAbsolute then [] else t.home) with
  | error e =>
    rw [hplace] at hwalk
    cases hwalk
  | ok place =>
    rw [hplace] at hwalk
    cases hwalk
    rfl

/-- A walk ends with a name in a directory, or at a directory. -/
theorem walk_end (hhome : t.HomeStands) (hwalk : t.walk p = .ok target) :
    (target.named = true ∧ ∃ here name, target.place = here ++ [name] ∧ t.find? here = some .directory) ∨
    (target.named = false ∧ t.find? target.place = some .directory) := by
  obtain ⟨hstart, hunder⟩ := hhome.start p
  have hsteps := foldlM_of_walk hwalk
  have hnamed := named_of_walk hwalk
  rw [foldlM_steps] at hsteps
  change p.steps.foldlM t.step (t.start p) = .ok target.place at hsteps
  rcases List.eq_nil_or_concat p.steps with hnil | ⟨init, last, hconcat⟩
  · rw [hnil] at hsteps hnamed
    have hplace : t.start p = target.place := Except.ok.inj hsteps
    rw [← hplace]
    exact .inr ⟨hnamed, hstart⟩
  · rw [List.concat_eq_append] at hconcat
    have hne : last ≠ [] := by
      have hmem : last ∈ p.steps := by
        rw [hconcat]
        exact List.mem_append_right _ List.mem_cons_self
      simpa using (List.mem_filter.1 hmem).2
    rw [hconcat] at hsteps hnamed
    rw [List.getLast?_concat] at hnamed
    obtain ⟨here, hinit, hlast⟩ := foldlM_append_ok hsteps
    have hstep : t.step here last = .ok target.place := by simpa using hlast
    have habove := underDirectories_foldlM hunder hinit
    rcases FileTree.step_cases hstep with ⟨hempty, -⟩ | ⟨-, hdir, ⟨hdot, hstay⟩ | ⟨hup, hparent⟩ | ⟨hdot, hup, hname⟩⟩
    · exact absurd hempty hne
    · rw [hstay]
      exact .inr ⟨by simp [hnamed, hdot], hdir⟩
    · refine .inr ⟨by simp [hnamed, hup], ?_⟩
      by_cases htop : here = []
      · rw [hparent, htop]
        rfl
      · have hpos := List.length_pos_iff.2 htop
        rw [hparent, List.dropLast_eq_take]
        exact habove _ (by omega)
    · exact .inl ⟨by simp [hnamed, hdot, hup], here, _, hname, hdir⟩

/-! ### Ways to a name -/

private theorem step_idle {segment : List Char} (hidle : Path.isIdle segment = true)
    (hdir : t.find? here = some .directory) : t.step here segment = .ok here := by
  unfold step
  by_cases hempty : segment = []
  · rw [if_pos hempty]
  · have hdot : segment = ['.'] := by simpa [Path.isIdle, hempty] using hidle
    rw [if_neg hempty, hdir]
    exact if_pos hdot

private theorem foldlM_of_idle {idle : List (List Char)} (hidle : ∀ segment ∈ idle, Path.isIdle segment = true)
    (hdir : t.find? here = some .directory) : idle.foldlM t.step here = .ok here := by
  induction idle with
  | nil => rfl
  | cons segment idle ih =>
    rw [List.foldlM_cons, step_idle (hidle segment List.mem_cons_self) hdir]
    exact ih fun s hs => hidle s (List.mem_cons_of_mem _ hs)

/-- If the path does not end in a dot, only empty pieces follow its last name. -/
private theorem rest_empty {before rest : List (List Char)} (hsegments : p.segments = before ++ rest)
    (hrest : ∀ segment ∈ rest, Path.isIdle segment = true) (hend : p.steps.getLast? ≠ some ['.']) :
    rest.filter (· ≠ []) = [] := by
  rcases List.eq_nil_or_concat (rest.filter (· ≠ [])) with hnil | ⟨init, last, hconcat⟩
  · exact hnil
  · rw [List.concat_eq_append] at hconcat
    refine absurd ?_ hend
    have hmem : last ∈ rest.filter (· ≠ []) := by
      rw [hconcat]
      exact List.mem_append_right _ List.mem_cons_self
    obtain ⟨hmem, hne⟩ := List.mem_filter.1 hmem
    have hdot : last = ['.'] := by simpa [Path.isIdle, of_decide_eq_true hne] using hrest last hmem
    unfold Path.steps
    rw [hsegments, List.filter_append, hconcat, hdot, ← List.append_assoc, List.getLast?_concat]

/-- A path can be followed if the directory of its last name is there. -/
private theorem Grows.walk_of_directory (h : t.Grows u) (hwalk : u.walk p = .ok target)
    {front idle rest : List (List Char)} {last : List Char} {place : Place}
    (hsegments : p.segments = front ++ (idle ++ last :: rest))
    (hidle : ∀ segment ∈ idle, Path.isIdle segment = true)
    (hrest : ∀ segment ∈ rest, Path.isIdle segment = true) (hend : p.steps.getLast? ≠ some ['.'])
    (hplace : front.foldlM t.step (t.start p) = .ok place) (hdir : t.find? place = some .directory) :
    t.walk p = .ok target := by
  have hsplit : p.segments = (front ++ (idle ++ [last])) ++ rest := by
    rw [hsegments]
    simp
  have hempty : rest.filter (· ≠ []) = [] := rest_empty hsplit hrest hend
  -- The last name is the same step in both trees.
  have hsteps := foldlM_of_walk hwalk
  rw [hsegments, ← h.start p] at hsteps
  obtain ⟨place', hplace', hmore⟩ := foldlM_append_ok hsteps
  obtain rfl := Except.ok.inj ((foldlM_of_grows h hplace).symm.trans hplace')
  obtain ⟨stay, hstay, hend'⟩ := foldlM_append_ok hmore
  obtain rfl := foldlM_idle hidle hstay
  rw [← List.singleton_append] at hend'
  obtain ⟨next, hnext, -⟩ := foldlM_append_ok hend'
  have hstep : u.step stay last = .ok next := by simpa using hnext
  have hstep' : t.step stay last = .ok next :=
    (step_congr (hdir.trans (h.directory stay hdir).symm) last).trans hstep
  have hall : p.segments.foldlM t.step (t.start p) = .ok next := by
    rw [hsegments, List.foldlM_append, hplace]
    show (idle ++ last :: rest).foldlM t.step stay = _
    rw [List.foldlM_append, foldlM_of_idle hidle hdir]
    show (last :: rest).foldlM t.step stay = _
    rw [List.foldlM_cons, hstep']
    show rest.foldlM t.step next = _
    rw [foldlM_steps, hempty]
    rfl
  exact h.walk_of_steps hwalk hall

/-- A path can be followed if its parent is a directory. -/
theorem Grows.walk_of_parent (h : t.Grows u) (hhome : t.HomeStands) (hwalk : u.walk p = .ok target)
    (hparent : ∀ above, p.parent? = some above → above.isEmpty = false → t.isDirectory above = true)
    (hend : p.steps.getLast? ≠ some ['.']) : t.walk p = .ok target := by
  obtain ⟨hstart, -⟩ := hhome.start p
  rcases Path.parent_cases p with ⟨above, habove, hne⟩ | ⟨-, -, -, idle, last, rest, hsegments, hidle, -, hrest⟩ | hidle
  · obtain ⟨htext, ⟨front, idle, last, rest, hsegments, hidle, -, hrest, hfront⟩, -⟩ :=
      Path.isParent_of_parent? habove hne
    obtain ⟨target', hwalk', hdir⟩ := isDirectory_iff.1 (hparent above habove hne)
    have hplace := foldlM_of_walk hwalk'
    rw [start_of_within htext hne t] at hplace
    have hfirst : front.foldlM t.step (t.start p) = .ok target'.place := by
      rcases hfront with hfront | hfront
      · rw [← hfront]
        exact hplace
      · rw [hfront] at hplace
        obtain ⟨place, hfirst, hlast⟩ := foldlM_append_ok hplace
        cases hlast
        exact hfirst
    exact h.walk_of_directory hwalk hsegments hidle hrest hend hfirst hdir
  · have hfront : p.segments = [] ++ (idle ++ last :: rest) := hsegments
    exact h.walk_of_directory hwalk hfront hidle hrest hend rfl hstart
  · exact h.walk_of_steps hwalk (foldlM_of_idle hidle hstart)

/-! ### Directories -/

/-- A tree stays behind as long as only entries of the grown tree are set. -/
private theorem Grows.set_directory (h : t.Grows u) {place : Place} (hne : place ≠ [])
    (hdir : u.find? place = some .directory) : (t.set place .directory).Grows u := by
  refine ⟨h.home, fun other hother => ?_, fun other content executable hother => ?_⟩
  · by_cases heq : other = place
    · rw [heq, hdir]
    · rw [find?_set _ hne, if_neg heq] at hother
      exact h.directory other hother
  · rw [find?_set _ hne] at hother
    split at hother
    · cases hother
    · exact h.file other content executable hother

private theorem Grows.set_file (h : t.Grows u) {place : Place} (hne : place ≠ []) {content : ByteArray}
    {executable : Bool} (hfile : u.find? place = some (.file content executable)) (executable' : Bool) :
    (t.set place (.file content executable')).Grows u := by
  refine ⟨h.home, fun other hother => ?_, fun other content' executable'' hother => ?_⟩
  · rw [find?_set _ hne] at hother
    split at hother
    · cases hother
    · exact h.directory other hother
  · by_cases heq : other = place
    · exact ⟨content, executable, by rw [heq, hfile]⟩
    · rw [find?_set _ hne, if_neg heq] at hother
      exact h.file other content' executable'' hother

/-- A directory of the grown tree can be created before, or it is there. -/
private theorem makeDirectory_cases (h : t.Grows u) (hhome : t.HomeStands) (hdir : u.isDirectory p = true)
    (hwalk : t.walk p = .ok target) :
    (∃ t', t.makeDirectory p = .ok t' ∧ t'.Grows u ∧ t'.isDirectory p = true) ∨
    t.makeDirectory p = .error .exists ∧ t.isDirectory p = true := by
  obtain ⟨target', hwalk', hfind'⟩ := isDirectory_iff.1 hdir
  obtain rfl := Except.ok.inj ((h.walk hwalk).symm.trans hwalk')
  cases hfind : t.find? target.place with
  | some e =>
    cases e with
    | directory => exact .inr ⟨makeDirectory_of_standing hwalk hfind, isDirectory_iff.2 ⟨target, hwalk, hfind⟩⟩
    | file content executable =>
      obtain ⟨content', executable', hfile⟩ := h.file _ content executable hfind
      rw [hfind'] at hfile
      cases hfile
  | none =>
    rcases walk_end hhome hwalk with ⟨hnamed, here, name, hplace, hhere⟩ | ⟨-, hthere⟩
    · have hne : target.place ≠ [] := by simp [hplace]
      have hmade : t.makeDirectory p = .ok (t.set target.place .directory) := by
        unfold makeDirectory
        rw [hwalk]
        show (if (!target.named) = true then _ else _) = _
        rw [hnamed, hfind, hplace, List.dropLast_concat, hhere]
        rfl
      refine .inl ⟨_, hmade, h.set_directory hne hfind', isDirectory_iff.2 ⟨target, ?_, ?_⟩⟩
      · exact (extends_of_makeDirectory hmade).grows.walk hwalk
      · rw [find?_set _ hne, if_pos rfl]
    · rw [hfind] at hthere
      cases hthere

/-- A path that names something has a parent with fewer steps. -/
private theorem parent_or_idle (p : Path) :
    (∃ above, p.parent? = some above ∧ above.Trimmed ∧ above.steps.length < p.steps.length) ∨
    ∀ segment ∈ p.segments, Path.isIdle segment = true := by
  have hnamed : ∀ {front idle rest : List (List Char)} {last : List Char},
      p.segments = front ++ (idle ++ last :: rest) → Path.isIdle last = false →
      (front.filter (· ≠ [])).length < p.steps.length := by
    intro front idle rest last hsegments hlast
    have hne : last ≠ [] := by
      rintro rfl
      cases hlast
    unfold Path.steps
    rw [hsegments, List.filter_append, List.filter_append, List.filter_cons_of_pos (by simpa using hne)]
    simp only [List.length_append, List.length_cons]
    omega
  rcases Path.parent_cases p with
    ⟨above, habove, hne⟩ | ⟨above, habove, hempty, idle, last, rest, hsegments, -, hlast, -⟩ | h
  · obtain ⟨-, ⟨front, idle, last, rest, hsegments, -, hlast, -, hfront⟩, htrimmed⟩ :=
      Path.isParent_of_parent? habove hne
    refine .inl ⟨above, habove, htrimmed, ?_⟩
    have hsteps : above.steps = front.filter (· ≠ []) := by
      unfold Path.steps
      rcases hfront with hfront | hfront
      · rw [hfront]
      · rw [hfront, List.filter_append]
        exact List.append_nil _
    rw [hsteps]
    exact hnamed hsegments hlast
  · obtain rfl : above = ⟨""⟩ := by
      rw [Path.isEmpty, String.isEmpty_iff] at hempty
      exact congrArg Path.mk hempty
    have hfront : p.segments = [] ++ (idle ++ last :: rest) := hsegments
    have hfewer := hnamed hfront hlast
    have htrimmed : Path.Trimmed ⟨""⟩ := by
      intro hlast
      cases hlast
    exact .inl ⟨_, habove, htrimmed, hfewer⟩
  · exact .inr h

/-- Where something is missing on the way, the path names something, and it does not end in a dot. -/
private theorem names_of_missing (h : t.Grows u) (hhome : t.HomeStands) (htrimmed : p.Trimmed)
    (hwalk : u.walk p = .ok target) (hmissing : t.walk p = .error .notFound) :
    p.steps.getLast? ≠ some ['.'] ∧ ¬ ∀ segment ∈ p.segments, Path.isIdle segment = true := by
  obtain ⟨hstart, -⟩ := hhome.start p
  have hsteps : ∀ there, p.segments.foldlM t.step (t.start p) ≠ .ok there := by
    intro there hthere
    rw [h.walk_of_steps hwalk hthere] at hmissing
    cases hmissing
  refine ⟨fun hdot => hsteps (t.start p) ?_, fun hidle => hsteps _ (foldlM_of_idle hidle hstart)⟩
  rw [foldlM_steps]
  show p.steps.foldlM t.step (t.start p) = _
  rw [htrimmed hdot]
  exact foldlM_of_idle (by simp [Path.isIdle]) hstart

/-- The directories that lead to a directory of the grown tree can be created before. -/
private theorem makeDirectoriesFrom_of_grows {fuel : Nat} (h : t.Grows u) (hhome : t.HomeStands)
    (htrimmed : p.Trimmed) (hdir : p.isEmpty = false → u.isDirectory p = true) (hfuel : p.steps.length < fuel) :
    ∃ t', t.makeDirectoriesFrom p fuel = .ok t' ∧ t'.Grows u ∧ (p.isEmpty = false → t'.isDirectory p = true) := by
  induction fuel generalizing t p with
  | zero => exact absurd hfuel (Nat.not_lt_zero _)
  | succ fuel ih =>
    unfold makeDirectoriesFrom
    by_cases hempty : p.isEmpty = true
    · rw [if_pos hempty]
      exact ⟨t, rfl, h, fun hne => absurd hempty (by simp [hne])⟩
    · have hdirectory := hdir (by simpa using hempty)
      obtain ⟨target, hwalk, -⟩ := isDirectory_iff.1 hdirectory
      rw [if_neg hempty]
      rcases h.walk_cases hwalk with hwalk' | hmissing
      · rcases makeDirectory_cases h hhome hdirectory hwalk' with ⟨t', hmake, hgrows, hmade⟩ | ⟨hmake, hthere⟩
        · rw [hmake]
          exact ⟨t', rfl, hgrows, fun _ => hmade⟩
        · rw [hmake]
          dsimp only
          rw [if_pos hthere]
          exact ⟨t, rfl, h, fun _ => hthere⟩
      · have hmake : t.makeDirectory p = .error .notFound := by
          unfold makeDirectory
          rw [hmissing]
          rfl
        rw [hmake]
        dsimp only
        obtain ⟨hend, hnames⟩ := names_of_missing h hhome htrimmed hwalk hmissing
        rcases parent_or_idle p with ⟨above, habove, htrimmed', hlength⟩ | hidle
        · have habove' : above.isEmpty = false → u.isDirectory above = true := isDirectory_parent hwalk habove
          obtain ⟨t', hcreated, hgrows, hthere⟩ := ih h hhome htrimmed' habove' (by omega)
          have hhome' := (extends_of_makeDirectoriesFrom hcreated).grows.homeStands hhome
          have hwalk' : t'.walk p = .ok target := by
            refine hgrows.walk_of_parent hhome' hwalk (fun other hother hne => ?_) hend
            rw [habove] at hother
            cases hother
            exact hthere hne
          rw [habove]
          dsimp only
          rw [hcreated]
          dsimp only [Except.bind]
          rcases makeDirectory_cases hgrows hhome' hdirectory hwalk' with
            ⟨t'', hmake', hgrows', hmade⟩ | ⟨hmake', hthere'⟩
          · rw [hmake']
            exact ⟨t'', rfl, hgrows', fun _ => hmade⟩
          · rw [hmake']
            dsimp only
            rw [if_pos hthere']
            exact ⟨t', rfl, hgrows, fun _ => hthere'⟩
        · exact absurd hidle hnames

/-- The directories above a path can be created before, if they are there in the grown tree. -/
theorem makeDirectories_of_grows (h : t.Grows u) (hhome : t.HomeStands) (habove : p.parent? = some above)
    (hne : above.isEmpty = false) (hdir : u.isDirectory above = true) :
    ∃ t', t.makeDirectories above = .ok t' ∧ t'.Grows u ∧ t'.isDirectory above = true := by
  have hfuel : above.steps.length < above.segments.length + 1 :=
    Nat.lt_succ_of_le (List.length_filter_le _ _)
  have htrimmed := (Path.isParent_of_parent? habove hne).trimmed
  obtain ⟨t', hmake, hgrows, hthere⟩ := makeDirectoriesFrom_of_grows h hhome htrimmed (fun _ => hdir) hfuel
  exact ⟨t', hmake, hgrows, hthere hne⟩

/-! ### Files -/

/-- A file that can be written into the grown tree can be written before, if its directory is there. -/
theorem write_of_grows {content : ByteArray} {u' : FileTree} (h : t.Grows u) (hhome : t.HomeStands)
    (hparent : ∀ above, p.parent? = some above → above.isEmpty = false → t.isDirectory above = true)
    (hwrite : u.write p content = .ok u') : ∃ t', t.write p content = .ok t' ∧ t'.Grows u' := by
  obtain ⟨target, executable, hwalk, hdir, hfree, rfl⟩ := set_of_write hwrite
  have hne := ne_nil_of_find? hfree
  -- A path that ends in a dot leads to a directory.
  have hend : p.steps.getLast? ≠ some ['.'] := by
    intro hdot
    have hnamed := named_of_walk hwalk
    rw [hdot] at hnamed
    rcases walk_end (h.homeStands hhome) hwalk with ⟨hnamed', -⟩ | ⟨-, hdirectory⟩
    · rw [hnamed] at hnamed'
      cases hnamed'
    · exact hfree hdirectory
  have hwalk' := h.walk_of_parent hhome hwalk hparent hend
  have hgrows : t.Grows (u.set target.place (.file content executable)) := h.trans (grows_set hfree)
  have hmade : (u.set target.place (.file content executable)).find? target.place =
      some (.file content executable) := by
    rw [find?_set _ hne, if_pos rfl]
  have hwritten : ∃ executable', t.write p content = .ok (t.set target.place (.file content executable')) := by
    unfold write
    rw [hwalk']
    show ∃ executable', (if target.directoryOnly = true then _ else _) = _
    rw [hdir]
    cases hfind : t.find? target.place with
    | some e =>
      cases e with
      | directory => exact absurd (h.directory _ hfind) hfree
      | file content' executable' => exact ⟨executable', rfl⟩
    | none =>
      refine ⟨false, ?_⟩
      rcases walk_end hhome hwalk' with ⟨-, here, name, hplace, hhere⟩ | ⟨-, hdirectory⟩
      · rw [hplace, List.dropLast_concat, hhere]
        rfl
      · rw [hfind] at hdirectory
        cases hdirectory
  obtain ⟨executable', hwritten⟩ := hwritten
  exact ⟨_, hwritten, hgrows.set_file hne hmade executable'⟩

end FileTree

end RosRecipes
