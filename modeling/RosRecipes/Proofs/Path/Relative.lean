import Mathlib.Data.List.Induction
import RosRecipes.Proofs.FileTree.Creation
import RosRecipes.Proofs.Path

/-!
# The way from one place to another

The way between two places goes up to the last place that they have in common, and down from there.  So it has its
`..` first (`moves_relativeTo`), and it leads from the one to the other.

* A place is the root with names below it (`exists_normalForm`), and a way that goes up and then down leaves what is
  common (`foldl_follow_replicate`, `foldl_follow_names`).
* `exists_parent?`: the parent of a path has all moves but the last.
-/

namespace RosRecipes.Path

variable {p q base cwd : Path} {c : Component} {cs names shared up : List Component}

/-! ### Moves -/

/-- The component is one piece of a path, and names something there. -/
def Component.IsMove (c : Component) : Prop := '/' ∉ c.text.toList ∧ componentOf? c.text.toList = some c

/-- The component is a name. -/
def Component.IsName (c : Component) : Prop := c.IsMove ∧ c ≠ .parent

theorem isMove_of_mem_moves (h : c ∈ p.moves) : c.IsMove := by
  rcases move_cases h with rfl | ⟨segment, hsegment, rfl, hidle, hup⟩
  · exact ⟨by decide, rfl⟩
  · have htext : (Component.name (.ofList segment)).text.toList = segment := String.toList_ofList
    refine ⟨?_, ?_⟩
    · rw [htext]
      exact Text.not_mem_of_mem_split hsegment
    · rw [htext, componentOf?, hidle, if_neg Bool.false_ne_true, if_neg hup]

namespace Component

theorem isMove_parent : parent.IsMove := ⟨by decide, rfl⟩

theorem IsMove.moves_text (h : c.IsMove) : moves ⟨c.text⟩ = [c] := by
  unfold moves segments
  rw [Text.split_of_not_mem h.1, List.filterMap_cons_some h.2, List.filterMap_nil]

theorem IsMove.isAbsolute_text (h : c.IsMove) : Path.isAbsolute ⟨c.text⟩ = false := by
  unfold Path.isAbsolute
  cases htext : c.text.toList with
  | nil => rfl
  | cons a s =>
    have ha : a ≠ '/' := by
      rintro rfl
      exact h.1 (htext ▸ List.mem_cons_self)
    simpa using ha

theorem IsMove.eq (h : c.IsMove) : c = .parent ∨ ∃ n, c = .name n := by
  cases c with
  | root => exact absurd h.1 (by decide)
  | current => exact absurd h.2 (by decide)
  | parent => exact .inl rfl
  | name n => exact .inr ⟨n, rfl⟩

theorem IsName.eq (h : c.IsName) : ∃ n, c = .name n := h.1.eq.resolve_left h.2

end Component

open Component (IsMove IsName)

theorem root_not_mem_names (h : ∀ c ∈ names, c.IsName) : .root ∉ names := by
  intro hmem
  obtain ⟨n, hn⟩ := (h _ hmem).eq
  cases hn

/-- A path that is put together from moves has these moves. -/
theorem moves_ofComponents (h : ∀ c ∈ cs, c.IsMove) : (ofComponents cs).moves = cs := by
  induction cs using List.reverseRecOn with
  | nil => rfl
  | append_singleton cs c ih =>
    have hc : c.IsMove := h c (by simp)
    have hjoin : ofComponents (cs ++ [c]) = (ofComponents cs).join ⟨c.text⟩ := by
      unfold ofComponents
      rw [List.foldl_append]
      rfl
    rw [hjoin, moves_join hc.isAbsolute_text, ih fun c hmem => h c (by simp [hmem]), hc.moves_text]

/-! ### Places -/

/-- Moves from a place lead to a place. -/
theorem exists_foldl_follow (hcs : ∀ c ∈ cs, c.IsMove) (hnames : ∀ c ∈ names, c.IsName) :
    ∃ names', cs.foldl follow (.root :: names) = .root :: names' ∧ ∀ c ∈ names', c.IsName := by
  induction cs generalizing names with
  | nil => exact ⟨names, rfl, hnames⟩
  | cons c cs ih =>
    obtain ⟨hc, hrest⟩ := List.forall_mem_cons.1 hcs
    rw [List.foldl_cons]
    rcases hc.eq with rfl | ⟨n, rfl⟩
    · rw [follow_parent (root_not_mem_names hnames)]
      exact ih hrest fun c hmem => hnames c (List.dropLast_subset _ hmem)
    · exact ih hrest (List.forall_mem_append.2 ⟨hnames, List.forall_mem_singleton.2 ⟨hc, nofun⟩⟩)

theorem normalForm_of_isAbsolute (h : p.isAbsolute = true) (cwd : Path) :
    p.normalForm cwd = p.moves.foldl follow [.root] := by
  have hnonempty : p.isEmpty = false := by
    rw [Bool.eq_false_iff]
    intro hempty
    have htext : p.text = "" := String.isEmpty_iff.1 hempty
    rw [isAbsolute, htext] at h
    cases h
  rw [normalForm_eq hnonempty, h, if_pos rfl]

/-- A path is followed from the working directory. -/
theorem normalForm_join_cwd (hcwd : cwd.isAbsolute = true) (hp : p.isEmpty = false) (other : Path) :
    (cwd.join p).normalForm other = p.normalForm cwd ∧ (cwd.join p).isAbsolute = true := by
  cases habsolute : p.isAbsolute with
  | true =>
    rw [join_of_isAbsolute habsolute, normalForm_of_isAbsolute habsolute, normalForm_of_isAbsolute habsolute]
    exact ⟨rfl, habsolute⟩
  | false =>
    have hjoin : (cwd.join p).isAbsolute = true := (isAbsolute_join habsolute cwd).trans hcwd
    refine ⟨?_, hjoin⟩
    rw [normalForm_of_isAbsolute hjoin, moves_join habsolute, List.foldl_append, normalForm_eq hp, habsolute,
      foldl_components, hcwd]
    rfl

theorem normalForm_join_of_isAbsolute (hp : p.isAbsolute = true) (hq : q.isAbsolute = false) (cwd : Path) :
    (p.join q).normalForm cwd = q.moves.foldl follow (p.normalForm cwd) := by
  rw [normalForm_of_isAbsolute ((isAbsolute_join hq p).trans hp), moves_join hq, List.foldl_append,
    normalForm_of_isAbsolute hp]

/-- From an absolute working directory, a path leads to a place. -/
theorem exists_normalForm (hcwd : cwd.isAbsolute = true) (hp : p.isEmpty = false) :
    ∃ names, p.normalForm cwd = .root :: names ∧ ∀ c ∈ names, c.IsName := by
  obtain ⟨hplace, habsolute⟩ := normalForm_join_cwd hcwd hp cwd
  rw [← hplace, normalForm_of_isAbsolute habsolute]
  exact exists_foldl_follow (fun _ => isMove_of_mem_moves) nofun

theorem foldl_follow_names (h : ∀ c ∈ names, c.IsName) (here : List Component) :
    names.foldl follow here = here ++ names := by
  induction names generalizing here with
  | nil => exact (List.append_nil here).symm
  | cons c names ih =>
    obtain ⟨hc, hnames⟩ := List.forall_mem_cons.1 h
    obtain ⟨n, rfl⟩ := hc.eq
    rw [List.foldl_cons, ih hnames, follow, List.append_assoc]
    rfl

/-- As many `..` as there are names lead back. -/
theorem foldl_follow_replicate (hshared : .root ∉ shared) (hup : .root ∉ up) :
    (List.replicate up.length .parent).foldl follow (.root :: (shared ++ up)) = .root :: shared := by
  induction up using List.reverseRecOn with
  | nil => rw [List.append_nil]; rfl
  | append_singleton up c ih =>
    have hnames : .root ∉ shared ++ (up ++ [c]) := by
      rw [List.mem_append, not_or]
      exact ⟨hshared, hup⟩
    have hback : follow (.root :: (shared ++ (up ++ [c]))) .parent = .root :: (shared ++ up) := by
      rw [follow_parent hnames, ← List.append_assoc, List.dropLast_concat]
    rw [List.length_append, List.length_singleton, List.replicate_succ, List.foldl_cons, hback]
    exact ih fun hmem => hup (List.mem_append_left _ hmem)

/-! ### Ways -/

/-- The way goes up to what is shared, and down from there. -/
theorem moves_relativeTo (hcwd : cwd.isAbsolute = true) (hp : p.isEmpty = false) (hbase : base.isEmpty = false) :
    ∃ shared up down, base.normalForm cwd = .root :: (shared ++ up) ∧ p.normalForm cwd = .root :: (shared ++ down) ∧
      (∀ x ∈ up.head?, ∀ y ∈ down.head?, x ≠ y) ∧ (∀ c ∈ shared ++ up, c.IsName) ∧ (∀ c ∈ down, c.IsName) ∧
      (p.relativeTo base cwd).moves = List.replicate up.length .parent ++ down := by
  obtain ⟨here, hhere, hnames⟩ := exists_normalForm hcwd hbase
  obtain ⟨there, hthere, hnames'⟩ := exists_normalForm hcwd hp
  let n := sharedStart there here
  have hsplit : here = there.take n ++ here.drop n := by rw [take_sharedStart, List.take_append_drop]
  have hdown : ∀ c ∈ there.drop n, c.IsName := fun c hc => hnames' c (List.mem_of_mem_drop hc)
  refine ⟨there.take n, here.drop n, there.drop n, ?_, ?_, ?_, hsplit ▸ hnames, hdown, ?_⟩
  · rw [← hsplit, hhere]
  · rw [List.take_append_drop, hthere]
  · exact fun x hx y hy => (head?_drop_sharedStart there here y hy x hx).symm
  · unfold relativeTo
    rw [hhere, hthere]
    dsimp only
    rw [sharedStart, if_pos rfl, List.length_cons, List.drop_succ_cons, Nat.add_sub_add_right, ← List.length_drop]
    refine moves_ofComponents (List.forall_mem_append.2 ⟨fun c hc => ?_, fun c hc => (hdown c hc).1⟩)
    rw [List.eq_of_mem_replicate hc]
    exact Component.isMove_parent

/-! ### Parents -/

private theorem filterMap_idle {segments : List (List Char)} (h : ∀ segment ∈ segments, isIdle segment = true) :
    segments.filterMap componentOf? = [] := by
  refine List.filterMap_eq_nil_iff.2 fun segment hsegment => ?_
  rw [componentOf?, if_pos (h segment hsegment)]

private theorem moves_of_segments {front idle rest : List (List Char)} {last : List Char}
    (hsegments : p.segments = front ++ (idle ++ last :: rest)) (hidle : ∀ segment ∈ idle, isIdle segment = true)
    (hlast : isIdle last = false) (hrest : ∀ segment ∈ rest, isIdle segment = true) :
    p.moves.dropLast = front.filterMap componentOf? := by
  have hnamed : ∃ c, componentOf? last = some c := by
    unfold componentOf?
    rw [hlast, if_neg Bool.false_ne_true]
    split
    · exact ⟨_, rfl⟩
    · exact ⟨_, rfl⟩
  obtain ⟨c, hc⟩ := hnamed
  unfold moves
  rw [hsegments, List.filterMap_append, List.filterMap_append, filterMap_idle hidle, List.filterMap_cons_some hc,
    filterMap_idle hrest, List.nil_append, List.dropLast_concat]

/-- The parent of a path that names something has all moves but the last. -/
theorem exists_parent? (h : p.moves ≠ []) : ∃ above, p.parent? = some above ∧ above.moves = p.moves.dropLast := by
  rcases parent_cases p with ⟨above, habove, hempty⟩ |
    ⟨above, habove, hempty, idle, last, rest, hsegments, hidle, hlast, hrest⟩ | hidle
  · obtain ⟨front, idle, last, rest, hsegments, hidle, hlast, hrest, hfront⟩ :=
      (isParent_of_parent? habove hempty).segments
    refine ⟨above, habove, ?_⟩
    rw [moves_of_segments hsegments hidle hlast hrest]
    rcases hfront with hfront | hfront
    · rw [moves, hfront]
    · rw [moves, hfront, List.filterMap_append]
      exact List.append_nil _
  · refine ⟨above, habove, ?_⟩
    have htext : above = ⟨""⟩ := congrArg Path.mk (String.isEmpty_iff.1 hempty)
    have hsegments' : p.segments = [] ++ (idle ++ last :: rest) := hsegments
    rw [moves_of_segments hsegments' hidle hlast hrest, htext]
    rfl
  · exact absurd (filterMap_idle hidle) h

end RosRecipes.Path
