import RosRecipes.Path
import RosRecipes.Proofs.Text.Split

/-!
# Where joined paths lead

A path leads to its place move by move from where it starts (`normalForm_eq`).  The moves of a joined path are those of
its two parts (`moves_join`), so the second part is followed from the place of the first (`normalForm_join`).

* If a relative path is followed from deep enough below the root, it does not lead where the absolute path with the
  same moves leads (`foldl_follow_ne`).
-/

namespace RosRecipes.Path

variable {p q : Path} {cwd : Path}

/-- What the pieces of a path name. -/
def moves (p : Path) : List Component := p.segments.filterMap componentOf?

/-! ### Components and moves -/

theorem segments_of_absolute (h : p.isAbsolute = true) : ∃ first rest, p.segments = [] :: first :: rest := by
  unfold isAbsolute at h
  unfold segments
  cases htext : p.text.toList with
  | nil =>
    rw [htext] at h
    cases h
  | cons c s =>
    rw [htext] at h
    have hc : c = '/' := by simpa using h
    subst hc
    obtain ⟨first, rest, hrest⟩ := List.exists_cons_of_ne_nil (Text.split_ne_nil '/' s)
    exact ⟨first, rest, by rw [← hrest]; rfl⟩

theorem segments_of_relative (h : p.isAbsolute = false) :
    p.segments = [[]] ∨ ∃ c s rest, p.segments = (c :: s) :: rest := by
  unfold isAbsolute at h
  unfold segments
  cases htext : p.text.toList with
  | nil => exact .inl rfl
  | cons c s =>
    rw [htext] at h
    have hc : c ≠ '/' := by simpa using h
    obtain ⟨first, rest, hrest⟩ := List.exists_cons_of_ne_nil (Text.split_ne_nil '/' s)
    exact .inr ⟨c, first, rest, by rw [Text.split, if_neg hc, hrest]⟩

/-- The components of a path are its moves, after the root or a leading dot. -/
theorem components_eq (p : Path) :
    ∃ start : Option Component, p.components = start.toList ++ p.moves ∧
      (p.isAbsolute = true → start = some .root) ∧
      (p.isAbsolute = false → start = none ∨ start = some .current) := by
  unfold components moves anchor
  cases habsolute : p.isAbsolute with
  | true =>
    obtain ⟨first, rest, hsegments⟩ := segments_of_absolute habsolute
    rw [hsegments]
    exact ⟨some .root, rfl, fun _ => rfl, nofun⟩
  | false =>
    rcases segments_of_relative habsolute with hsegments | ⟨c, s, rest, hsegments⟩
    · rw [hsegments]
      exact ⟨none, rfl, nofun, fun _ => .inl rfl⟩
    · rw [hsegments]
      by_cases hdot : c :: s = ['.']
      · rw [hdot]
        exact ⟨some .current, rfl, nofun, fun _ => .inr rfl⟩
      · refine ⟨none, ?_, nofun, fun _ => .inl rfl⟩
        split
        next start body hanchor =>
        split at hanchor
        · next heq => cases heq
        · next heq => exact absurd (List.cons.inj heq).1 hdot
        · cases hanchor
          rfl

/-- The components of a path lead where its moves lead, from the root if the path is absolute. -/
theorem foldl_components (p : Path) (here : List Component) :
    p.components.foldl follow here = p.moves.foldl follow (if p.isAbsolute then [.root] else here) := by
  obtain ⟨start, hcomponents, habsolute, hrelative⟩ := p.components_eq
  rw [hcomponents, List.foldl_append]
  cases h : p.isAbsolute with
  | true =>
    rw [habsolute h]
    rfl
  | false =>
    rcases hrelative h with rfl | rfl
    · rfl
    · rfl

theorem normalForm_eq (h : p.isEmpty = false) (cwd : Path) :
    p.normalForm cwd =
      p.moves.foldl follow (if p.isAbsolute then [.root] else cwd.components.foldl follow []) := by
  rw [← foldl_components]
  unfold normalForm absoluteComponents
  rw [h]
  cases habsolute : p.isAbsolute with
  | true =>
    simp only [Bool.false_eq_true, if_false, if_true]
    rw [foldl_components, foldl_components, habsolute, if_pos rfl, if_pos rfl]
  | false =>
    simp only [Bool.false_eq_true, if_false]
    rw [List.foldl_append]

theorem fileName?_eq_some_iff {name : String} : p.fileName? = some name ↔ p.moves.getLast? = some (.name name) := by
  obtain ⟨start, hcomponents, habsolute, hrelative⟩ := p.components_eq
  have hstart : ∀ n, start.toList.getLast? ≠ some (.name n) := by
    intro n hn
    cases h : p.isAbsolute with
    | true =>
      rw [habsolute h] at hn
      cases hn
    | false =>
      rcases hrelative h with rfl | rfl
      · cases hn
      · cases hn
  unfold fileName?
  rw [hcomponents, List.getLast?_append]
  cases hmoves : p.moves.getLast? with
  | none =>
    rw [Option.none_or]
    cases hlast : start.toList.getLast? with
    | none => simp
    | some c =>
      cases c with
      | name n => exact absurd hlast (hstart n)
      | root => simp
      | current => simp
      | parent => simp
  | some c =>
    rw [Option.some_or]
    cases c with
    | name n => simp
    | root => simp
    | current => simp
    | parent => simp

/-! ### Names -/

/-- A move is a way up or a name, and a name is a piece of the path. -/
theorem move_cases {c : Component} (h : c ∈ p.moves) :
    c = .parent ∨ ∃ segment ∈ p.segments, c = .name (.ofList segment) ∧ isIdle segment = false ∧
      segment ≠ ['.', '.'] := by
  obtain ⟨segment, hsegment, hc⟩ := List.mem_filterMap.1 h
  unfold componentOf? at hc
  by_cases hidle : isIdle segment = true
  · rw [if_pos hidle] at hc
    cases hc
  · rw [if_neg hidle] at hc
    by_cases hup : segment = ['.', '.']
    · rw [if_pos hup] at hc
      cases hc
      exact .inl rfl
    · rw [if_neg hup] at hc
      cases hc
      exact .inr ⟨segment, hsegment, rfl, by simpa using hidle, hup⟩

/-- A path after a dot is relative. -/
theorem isAbsolute_dot (text : String) : isAbsolute ⟨"./" ++ text⟩ = false := by simp [isAbsolute]

theorem isEmpty_dot (text : String) : isEmpty ⟨"./" ++ text⟩ = false := by simp [isEmpty]

/-- A path after a dot has the dot as its first component. -/
theorem components_dot (text : String) : components ⟨"./" ++ text⟩ = .current :: moves ⟨text⟩ := by
  have htext : ("./" ++ text).toList = ['.'] ++ '/' :: text.toList := by simp
  unfold components anchor segments
  rw [htext, Text.split_append]
  rfl

/-- A dot before a path names nothing. -/
theorem moves_dot (p : Path) : moves ⟨"./" ++ p.text⟩ = p.moves := by
  have htext : ("./" ++ p.text).toList = ['.'] ++ '/' :: p.text.toList := by simp
  unfold moves segments
  rw [htext, Text.split_append, List.filterMap_append]
  rfl

/-- A name in a path, after a dot, is one move. -/
theorem moves_dot_name {name : String} (h : .name name ∈ p.moves) :
    moves ⟨"./" ++ name⟩ = [.name name] := by
  rcases move_cases h with hparent | ⟨segment, hsegment, hname, hidle, hup⟩
  · cases hparent
  · cases hname
    have hslash : '/' ∉ segment := Text.not_mem_of_mem_split hsegment
    unfold moves segments
    have htext : ("./" ++ String.ofList segment).toList = ['.'] ++ '/' :: segment := by simp
    rw [htext, Text.split_append_sep (by decide), Text.split_of_not_mem hslash]
    have hstep : componentOf? segment = some (.name (.ofList segment)) := by
      unfold componentOf?
      rw [hidle, if_neg Bool.false_ne_true, if_neg hup]
    rw [List.filterMap_cons_none rfl, List.filterMap_cons_some hstep, List.filterMap_nil]

/-! ### Joining -/

private theorem isEmpty_iff : p.isEmpty = true ↔ p.text.toList = [] := by
  unfold isEmpty
  rw [String.isEmpty_iff, ← String.toList_inj]
  rfl

/-- What is joined to a path comes after a slash. -/
private theorem exists_text_join (h : p.isEmpty = false) :
    ∃ s : List Char, p.moves = (Text.split '/' s).filterMap componentOf? ∧
      p.text.toList.head? = (s ++ ['/']).head? ∧
      ∀ q : Path, q.isAbsolute = false → (p.join q).text.toList = s ++ '/' :: q.text.toList := by
  by_cases hslash : p.text.toList.getLast? = some '/'
  · obtain ⟨s, hs⟩ := List.getLast?_eq_some_iff.1 hslash
    refine ⟨s, ?_, by rw [hs], fun q hq => ?_⟩
    · unfold moves segments
      rw [hs, Text.split_append, List.filterMap_append]
      exact List.append_nil _
    · unfold join
      rw [hq, h, hslash, if_neg Bool.false_ne_true, if_pos (by simp)]
      simp [hs]
  · refine ⟨p.text.toList, rfl, ?_, fun q hq => ?_⟩
    · have hne : p.text.toList ≠ [] := by
        rw [Ne, ← isEmpty_iff, h]
        exact Bool.false_ne_true
      obtain ⟨c, s, hs⟩ := List.exists_cons_of_ne_nil hne
      rw [hs]
      rfl
    · unfold join
      rw [hq, h, if_neg Bool.false_ne_true, if_neg (by simpa using hslash)]
      simp

private theorem join_of_isEmpty (hp : p.isEmpty = true) (q : Path) : p.join q = q := by
  have htext : p.text = "" := String.isEmpty_iff.1 hp
  unfold join
  rw [hp, htext, Bool.true_or, if_pos rfl, String.empty_append]
  split <;> rfl

theorem join_of_isAbsolute (hq : q.isAbsolute = true) (p : Path) : p.join q = q := by
  unfold join
  rw [hq, if_pos rfl]

theorem moves_join (hq : q.isAbsolute = false) (p : Path) : (p.join q).moves = p.moves ++ q.moves := by
  cases hp : p.isEmpty with
  | true =>
    have hnone : p.moves = [] := by
      unfold moves segments
      rw [isEmpty_iff.1 hp]
      rfl
    rw [join_of_isEmpty hp, hnone, List.nil_append]
  | false =>
    obtain ⟨s, hmoves, -, hjoin⟩ := exists_text_join hp
    rw [hmoves, moves, segments, hjoin q hq, Text.split_append, List.filterMap_append]
    rfl

theorem isAbsolute_join (hq : q.isAbsolute = false) (p : Path) : (p.join q).isAbsolute = p.isAbsolute := by
  cases hp : p.isEmpty with
  | true =>
    rw [join_of_isEmpty hp, hq]
    unfold isAbsolute
    rw [isEmpty_iff.1 hp]
    rfl
  | false =>
    obtain ⟨s, -, hhead, hjoin⟩ := exists_text_join hp
    unfold isAbsolute
    rw [hjoin q hq, hhead]
    cases s <;> rfl

theorem isEmpty_join (hq : q.isEmpty = false) (p : Path) : (p.join q).isEmpty = false := by
  cases habsolute : q.isAbsolute with
  | true =>
    rw [join_of_isAbsolute habsolute, hq]
  | false =>
    cases hp : p.isEmpty with
    | true => rw [join_of_isEmpty hp, hq]
    | false =>
      obtain ⟨s, -, -, hjoin⟩ := exists_text_join hp
      rw [Bool.eq_false_iff, Ne, isEmpty_iff, hjoin q habsolute]
      simp

/-- What is joined to a path is followed from its place. -/
theorem normalForm_join (hq : q.isEmpty = false) (p cwd : Path) :
    (p.join q).normalForm cwd = q.components.foldl follow ((p.join ⟨"."⟩).normalForm cwd) := by
  have hdot : (p.join ⟨"."⟩).moves = p.moves := (moves_join rfl p).trans (List.append_nil _)
  have hstart : (p.join ⟨"."⟩).isAbsolute = p.isAbsolute := isAbsolute_join rfl p
  rw [normalForm_eq (isEmpty_join hq p), normalForm_eq (isEmpty_join rfl p), foldl_components q, hdot, hstart]
  cases habsolute : q.isAbsolute with
  | true => rw [join_of_isAbsolute habsolute, habsolute]; rfl
  | false => rw [moves_join habsolute, isAbsolute_join habsolute, List.foldl_append]; rfl

theorem fileName?_join {name : String} (h : q.fileName? = some name) (p : Path) :
    (p.join q).fileName? = some name := by
  cases habsolute : q.isAbsolute with
  | true => rw [join_of_isAbsolute habsolute, h]
  | false =>
    rw [fileName?_eq_some_iff] at h ⊢
    rw [moves_join habsolute, List.getLast?_append, h]
    rfl

/-! ### Far below the root -/

/-- A directory that is `n` names below the root. -/
def below : Nat → Path
  | 0 => ⟨"/"⟩
  | n + 1 => below n / "x"

theorem isAbsolute_below (n : Nat) : (below n).isAbsolute = true := by
  induction n with
  | zero => rfl
  | succ n ih => exact (isAbsolute_join rfl (below n)).trans ih

theorem foldl_components_below (n : Nat) :
    (below n).components.foldl follow [] = .root :: List.replicate n (.name "x") := by
  have hmoves : (below n).moves.foldl follow [.root] = .root :: List.replicate n (.name "x") := by
    induction n with
    | zero => rfl
    | succ n ih =>
      have hjoin : (below (n + 1)).moves = (below n).moves ++ [.name "x"] := moves_join rfl (below n)
      rw [hjoin, List.foldl_append, ih, List.replicate_succ']
      rfl
  rw [foldl_components, isAbsolute_below, if_pos rfl, hmoves]

theorem follow_parent {names : List Component} (h : .root ∉ names) :
    follow (.root :: names) .parent = .root :: names.dropLast := by
  unfold follow
  cases names with
  | nil => rfl
  | cons c names =>
    have hlast : (Component.root :: c :: names).getLast? ≠ some .root := by
      rw [List.getLast?_cons_cons]
      exact fun hroot => h (List.mem_of_getLast? hroot)
    rw [if_neg hlast]
    rfl

/-- Steps lead from a place far below the root to another place than from one that is not. -/
theorem foldl_follow_ne {cs deep shallow : List Component} (hcs : .root ∉ cs) (hdeep : .root ∉ deep)
    (hshallow : .root ∉ shallow) (hlt : shallow.length + cs.length < deep.length) :
    cs.foldl follow (.root :: deep) ≠ cs.foldl follow (.root :: shallow) := by
  induction cs generalizing deep shallow with
  | nil =>
    intro heq
    rw [(List.cons.inj heq).2, List.length_nil] at hlt
    omega
  | cons c cs ih =>
    rw [List.mem_cons, not_or] at hcs
    rw [List.length_cons] at hlt
    rw [List.foldl_cons, List.foldl_cons]
    cases c with
    | root => exact absurd rfl hcs.1
    | current => exact ih hcs.2 hdeep hshallow (by omega)
    | name n =>
      have hname : ∀ names : List Component, .root ∉ names → .root ∉ names ++ [.name n] := by simp
      refine ih hcs.2 (hname deep hdeep) (hname shallow hshallow) ?_
      simp only [List.append_eq, List.length_append, List.length_singleton]
      omega
    | parent =>
      have hup : ∀ names : List Component, .root ∉ names → .root ∉ names.dropLast :=
        fun names h hmem => h (List.dropLast_subset names hmem)
      rw [follow_parent hdeep, follow_parent hshallow]
      refine ih hcs.2 (hup deep hdeep) (hup shallow hshallow) ?_
      rw [List.length_dropLast, List.length_dropLast]
      omega

theorem root_not_mem_moves (p : Path) : .root ∉ p.moves := by
  intro hroot
  rcases move_cases hroot with h | ⟨_, _, h, -, -⟩
  · cases h
  · cases h

end RosRecipes.Path
