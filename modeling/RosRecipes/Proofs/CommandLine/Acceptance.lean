import Mathlib.Data.List.Chain
import RosRecipes.CommandLine.Basic
import RosRecipes.Proofs.CommandLine.Line

/-!
# What is accepted

The items of a line are accepted one after the other.  What comes of it can be read off the items as a whole: a flag
is given if it is the last of its pair, and a setting has its values, and the run its manifests, as they stand.

* `Arguments.has_acceptAll`, `Arguments.valuesOf_acceptAll` and `Arguments.manifests_acceptAll` say what is accepted.
* `Arguments.exists_acceptAll_iff`: the flags of each pair alternate, and no setting has more values than it may have.
* `configure_eq_ok_iff`: a configuration is what is accepted of a line.
-/

namespace RosRecipes.CommandLine

/-! ### Items that concern the same -/

/-- The flag itself, and the one that takes it back. -/
def Flag.pair (f : Flag) : List Flag := f :: f.opposite?.toList

namespace Item

def manifest? : Item → Option String
  | .manifest path => some path
  | _ => none

/-- The flag, if it is one of the pair. -/
def flagOf? (f : Flag) : Item → Option Flag
  | .flag g => if g ∈ f.pair then some g else none
  | _ => none

/-- The value, if it is one of the setting. -/
def valueOf? (s : Setting) : Item → Option String
  | .value s' v => if s' = s then some v else none
  | _ => none

end Item

/-- The flags of the pair, in order. -/
def flagsIn (f : Flag) (items : List Item) : List Flag := items.filterMap (Item.flagOf? f)

/-- The values of the setting, in order. -/
def valuesIn (s : Setting) (items : List Item) : List String := items.filterMap (Item.valueOf? s)

variable {f g : Flag} {s : Setting} {i : Item} {items items' : List Item}

theorem opposite?_comm : f.opposite? = some g ↔ g.opposite? = some f := by
  have h : ∀ {f g : Flag}, f.opposite? = some g → g.opposite? = some f := by
    intro f g h
    cases f <;> cases h <;> rfl
  exact ⟨h, h⟩

theorem mem_pair : g ∈ f.pair ↔ g = f ∨ f.opposite? = some g := by
  simp [Flag.pair]

/-- The pair is the same for both of its flags. -/
theorem flagsIn_eq_of_mem_pair (h : g ∈ f.pair) (items : List Item) : flagsIn g items = flagsIn f items := by
  rcases mem_pair.1 h with rfl | hopposite
  · rfl
  · have hpair : ∀ k, k ∈ g.pair ↔ k ∈ f.pair := by
      intro k
      rw [mem_pair, mem_pair, opposite?_comm.1 hopposite, hopposite, Option.some.injEq, Option.some.injEq, or_comm,
        eq_comm, @eq_comm _ g]
    have hitem : Item.flagOf? g = Item.flagOf? f := by
      funext i
      cases i with
      | flag k => simp only [Item.flagOf?, hpair]
      | value s v => rfl
      | manifest path => rfl
    rw [flagsIn, flagsIn, hitem]

theorem mem_pair_of_mem_flagsIn (h : g ∈ flagsIn f items) : g ∈ f.pair := by
  obtain ⟨i, -, hi⟩ := List.mem_filterMap.1 h
  cases i with
  | flag k =>
    rw [Item.flagOf?] at hi
    split at hi
    · cases hi
      assumption
    · cases hi
  | value s v => cases hi
  | manifest path => cases hi

theorem flagsIn_append_singleton (f : Flag) (items : List Item) (i : Item) :
    flagsIn f (items ++ [i]) = flagsIn f items ++ (i.flagOf? f).toList := by
  rw [flagsIn, List.filterMap_append]
  cases h : i.flagOf? f <;> simp [flagsIn, h]

theorem valuesIn_append_singleton (s : Setting) (items : List Item) (i : Item) :
    valuesIn s (items ++ [i]) = valuesIn s items ++ (i.valueOf? s).toList := by
  rw [valuesIn, List.filterMap_append]
  cases h : i.valueOf? s <;> simp [valuesIn, h]

theorem flagsIn_manifests (f : Flag) (paths : List String) : flagsIn f (paths.map .manifest) = [] := by
  simp [flagsIn, Item.flagOf?]

/-! ### What items come to -/

namespace Arguments

variable {a b : Arguments}

private theorem has_add_flag : (a.add (.flag g)).has f = if g ∈ f.pair then decide (g = f) else a.has f := by
  simp only [has, add, List.mem_append, List.mem_filter, List.mem_singleton, decide_eq_true_iff, mem_pair,
    eq_comm (a := f), opposite?_comm (f := f)]
  by_cases hgf : g = f
  · simp [hgf]
  · by_cases hopposite : g.opposite? = some f
    · simp [hgf, hopposite]
    · simp [hgf, hopposite, Ne.symm hopposite]

/-- A flag is given if it is the last of its pair. -/
theorem has_acceptAll (h : a.acceptAll items = .ok b) :
    b.has f = (flagsIn f items).getLast?.elim (a.has f) fun g => decide (g = f) := by
  induction items generalizing a with
  | nil =>
    cases h
    rfl
  | cons i items ih =>
    obtain ⟨a', hi, hall⟩ := acceptAll_cons.1 h
    rw [ih hall, (eq_add_of_acceptItem hi).1]
    cases i with
    | flag g =>
      rw [has_add_flag]
      by_cases hg : g ∈ f.pair
      · have hcons : flagsIn f (.flag g :: items) = g :: flagsIn f items := by simp [flagsIn, Item.flagOf?, hg]
        rw [if_pos hg, hcons, List.getLast?_cons]
        cases (flagsIn f items).getLast? <;> rfl
      · have hcons : flagsIn f (.flag g :: items) = flagsIn f items := by simp [flagsIn, Item.flagOf?, hg]
        rw [if_neg hg, hcons]
    | value s v => rfl
    | manifest path => rfl

theorem valuesOf_acceptAll (h : a.acceptAll items = .ok b) : b.valuesOf s = a.valuesOf s ++ valuesIn s items := by
  induction items generalizing a with
  | nil =>
    cases h
    exact (List.append_nil _).symm
  | cons i items ih =>
    obtain ⟨a', hi, hall⟩ := acceptAll_cons.1 h
    rw [ih hall, (eq_add_of_acceptItem hi).1]
    cases i with
    | flag g => rfl
    | value s' v => by_cases hs : s' = s <;> simp [valuesOf, add, valuesIn, Item.valueOf?, hs]
    | manifest path => rfl

theorem manifests_acceptAll (h : a.acceptAll items = .ok b) :
    b.manifests = a.manifests ++ items.filterMap Item.manifest? := by
  induction items generalizing a with
  | nil =>
    cases h
    simp
  | cons i items ih =>
    obtain ⟨a', hi, hall⟩ := acceptAll_cons.1 h
    rw [ih hall, (eq_add_of_acceptItem hi).1]
    cases i <;> simp [add, Item.manifest?, List.filterMap_cons]

end Arguments

/-! ### Which items are accepted -/

/-- Help and the version are not part of a run, and no path is empty. -/
def Item.Sound : Item → Prop
  | .flag f => f ≠ .help ∧ f ≠ .version
  | .value s v => s.isPath = true → v ≠ ""
  | .manifest path => path ≠ ""

/-- A flag does not follow itself, and most settings are given once. -/
def Item.Fits (items : List Item) : Item → Prop
  | .flag f => (flagsIn f items).getLast? ≠ some f
  | .value s _ => s.isRepeatable = false → valuesIn s items = []
  | .manifest _ => True

/-- What is accepted as a whole. -/
structure Acceptable (items : List Item) : Prop where
  sound : ∀ i ∈ items, i.Sound
  alternate : ∀ f, (flagsIn f items).IsChain (· ≠ ·)
  once : ∀ s : Setting, s.isRepeatable = false → (valuesIn s items).length ≤ 1

private theorem alternate_append_singleton :
    (∀ f, (flagsIn f (items ++ [i])).IsChain (· ≠ ·)) ↔
      (∀ f, (flagsIn f items).IsChain (· ≠ ·)) ∧ ∀ g, i = .flag g → (flagsIn g items).getLast? ≠ some g := by
  simp only [flagsIn_append_singleton]
  cases i with
  | flag g =>
    have hlast : ∀ f, (flagsIn f items ++ ((Item.flag g).flagOf? f).toList).IsChain (· ≠ ·) ↔
        (flagsIn f items).IsChain (· ≠ ·) ∧ (g ∈ f.pair → (flagsIn f items).getLast? ≠ some g) := by
      intro f
      by_cases hg : g ∈ f.pair
      · rw [Item.flagOf?, if_pos hg, List.isChain_append]
        simp only [Option.toList_some, List.IsChain.singleton, List.head?_cons, Option.mem_def, Option.some.injEq,
          true_and, hg, forall_const, forall_eq']
        grind
      · simp [Item.flagOf?, hg]
    simp only [hlast, forall_and, Item.flag.injEq, forall_eq']
    refine and_congr_right' ⟨fun h => h g (mem_pair.2 (.inl rfl)), fun h f hf => ?_⟩
    rw [← flagsIn_eq_of_mem_pair hf]
    exact h
  | value s v => simp [Item.flagOf?]
  | manifest path => simp [Item.flagOf?]

private theorem once_append_singleton :
    (∀ s : Setting, s.isRepeatable = false → (valuesIn s (items ++ [i])).length ≤ 1) ↔
      (∀ s : Setting, s.isRepeatable = false → (valuesIn s items).length ≤ 1) ∧
        ∀ s v, i = .value s v → s.isRepeatable = false → valuesIn s items = [] := by
  simp only [valuesIn_append_singleton, List.length_append]
  cases i with
  | flag g => simp [Item.valueOf?]
  | value s v =>
    have hlast : ∀ s', (valuesIn s' items).length + ((Item.value s v).valueOf? s').toList.length ≤ 1 ↔
        (valuesIn s' items).length ≤ 1 ∧ (s = s' → valuesIn s' items = []) := by
      intro s'
      by_cases hs : s = s'
      · simpa [Item.valueOf?, hs] using fun h : valuesIn s' items = [] => by simp [h]
      · simp [Item.valueOf?, hs]
    simp only [hlast, Item.value.injEq]
    constructor
    · intro h
      exact ⟨fun s' hs' => (h s' hs').1, fun s' _ hs hs' => (h s' hs').2 hs.1⟩
    · rintro ⟨h, hnone⟩ s' hs'
      exact ⟨h s' hs', fun hs => hnone s' v ⟨hs, rfl⟩ hs'⟩
  | manifest path => simp [Item.valueOf?]

theorem acceptable_append_singleton : Acceptable (items ++ [i]) ↔ Acceptable items ∧ i.Sound ∧ i.Fits items := by
  have hsound : (∀ j ∈ items ++ [i], j.Sound) ↔ (∀ j ∈ items, j.Sound) ∧ i.Sound := by
    simp [or_imp, forall_and]
  have hfits : i.Fits items ↔ (∀ g, i = .flag g → (flagsIn g items).getLast? ≠ some g) ∧
      ∀ s v, i = .value s v → s.isRepeatable = false → valuesIn s items = [] := by
    cases i <;> simp [Item.Fits]
  constructor
  · rintro ⟨h₁, h₂, h₃⟩
    rw [hsound] at h₁
    rw [alternate_append_singleton] at h₂
    rw [once_append_singleton] at h₃
    exact ⟨⟨h₁.1, h₂.1, h₃.1⟩, h₁.2, hfits.2 ⟨h₂.2, h₃.2⟩⟩
  · rintro ⟨⟨h₁, h₂, h₃⟩, hi, h⟩
    rw [hfits] at h
    exact ⟨hsound.2 ⟨h₁, hi⟩, alternate_append_singleton.2 ⟨h₂, h.1⟩, once_append_singleton.2 ⟨h₃, h.2⟩⟩

namespace Arguments

variable {a b : Arguments}

private theorem exists_acceptFlag_iff : (∃ b, a.acceptFlag f = .ok b) ↔ a.has f = false := by
  unfold acceptFlag
  cases a.has f <;> simp

/-- An item that may come next is accepted. -/
theorem exists_acceptItem_iff (h : acceptAll {} items = .ok a) :
    (∃ b, a.acceptItem i = .ok b) ↔ i.Sound ∧ i.Fits items := by
  cases i with
  | flag f =>
    have hhas : a.has f = false ↔ (flagsIn f items).getLast? ≠ some f := by
      rw [has_acceptAll h]
      cases (flagsIn f items).getLast? <;> simp [has]
    have hflag := exists_acceptFlag_iff.trans hhas
    cases f with
    | help => simp [acceptItem, Item.Sound]
    | version => simp [acceptItem, Item.Sound]
    | _ => simpa [acceptItem, Item.Sound, Item.Fits] using hflag
  | value s v =>
    have hvalue : a.value? s = (valuesIn s items).head? := by
      rw [value?, valuesOf_acceptAll h]
      rfl
    simp only [acceptItem, acceptValue, hvalue, Item.Sound, Item.Fits]
    cases s.isRepeatable <;> cases s.isPath <;> cases valuesIn s items <;> by_cases hempty : v = "" <;> simp [hempty]
  | manifest path => by_cases hempty : path = "" <;> simp [acceptItem, Item.Sound, Item.Fits, hempty]

/-- Items are accepted if they are sound, the flags of each pair alternate, and no setting has more values than it may
have. -/
theorem exists_acceptAll_iff : (∃ b, acceptAll {} items = .ok b) ↔ Acceptable items := by
  induction items using List.reverseRecOn with
  | nil => exact iff_of_true ⟨{}, rfl⟩ ⟨nofun, fun _ => .nil, fun _ _ => Nat.zero_le _⟩
  | append_singleton items i ih =>
    rw [acceptable_append_singleton, ← ih]
    simp only [acceptAll_append, acceptAll_singleton]
    constructor
    · rintro ⟨b, a, ha, hi⟩
      exact ⟨⟨a, ha⟩, (exists_acceptItem_iff ha).1 ⟨b, hi⟩⟩
    · rintro ⟨⟨a, ha⟩, hi⟩
      obtain ⟨b, hb⟩ := (exists_acceptItem_iff ha).2 hi
      exact ⟨b, a, ha, hb⟩

end Arguments

/-! ### Whole command lines -/

def Line.manifests (l : Line) : List String := l.items.filterMap Item.manifest?

variable {files : FileTree} {cache : Option Path} {program : String} {c : Configuration}

theorem read_eq_ok_iff {arguments : List String} {a : Arguments} :
    Arguments.read arguments = .ok a ↔
      Arguments.readFrom {} .nothing arguments = .ok a ∧ a.hasConflict = false ∧ a.manifests ≠ [] := by
  unfold Arguments.read
  cases Arguments.readFrom {} .nothing arguments with
  | error e => simp [bind, Except.bind]
  | ok a' =>
    cases hconflict : a'.hasConflict <;> cases hmanifests : a'.manifests <;>
      simp [bind, Except.bind, pure, Except.pure, hconflict, hmanifests] <;> grind

theorem configure_eq_ok_iff {l : Line} (hl : l.Proper) :
    configure files cache (program :: l.arguments) = .ok c ↔
      ∃ a, Arguments.acceptAll {} l.items = .ok a ∧ a.hasConflict = false ∧ a.manifests ≠ [] ∧
        a.configuration (recorded files (program :: l.arguments)) cache = c := by
  have hread {a : Arguments} := (read_eq_ok_iff (a := a)).trans (and_congr_left' (Arguments.readFrom_line hl))
  unfold configure
  rw [List.tail_cons]
  constructor
  · intro h
    cases ha : Arguments.read l.arguments with
    | error e =>
      rw [ha] at h
      cases h
    | ok a =>
      rw [ha] at h
      obtain ⟨hall, hconflict, hmanifests⟩ := hread.1 ha
      exact ⟨a, hall, hconflict, hmanifests, Except.ok.inj h⟩
  · rintro ⟨a, hall, hconflict, hmanifests, rfl⟩
    rw [hread.2 ⟨hall, hconflict, hmanifests⟩]
    rfl

/-- A command line that is accepted is written as a line. -/
theorem exists_line_of_configure {arguments : List String} (h : configure files cache (program :: arguments) = .ok c) :
    ∃ l : Line, l.Proper ∧ l.arguments = arguments := by
  unfold configure at h
  rw [List.tail_cons] at h
  cases ha : Arguments.read arguments with
  | error e =>
    rw [ha] at h
    cases h
  | ok a => exact Arguments.exists_line (read_eq_ok_iff.1 ha).1

end RosRecipes.CommandLine
