import RosRecipes.Proofs.CommandLine.Acceptance

/-!
# Command lines that generate the same

A call that compares has to check what a call that writes would have written, and a call for some of the manifests
what a call for all of them would have written for these.  Two lines are variants of each other if they differ at most
in where they ask for a comparison, and in manifests that exist and have the usual name (`Line.Variant`).

* `Line.Variant.recorded`: the same is recorded for them.
* `Arguments.core_acceptAll`: what is accepted is the same but for the comparison and these manifests.
* `configured_alike`: if one is accepted then so is the other, and the configurations are the same but for this.
-/

namespace RosRecipes.CommandLine

variable {files : FileTree}

/-! ### Variants -/

/-- A manifest that exists and has the usual name; it is left out of the recorded line. -/
def isRedundant (files : FileTree) (path : String) : Bool :=
  Text.endsWith "package.xml".toList path.toList && files.isFile ⟨path⟩

/-- Does the item make a difference beside the mode and the manifests? -/
def Item.isKept (files : FileTree) : Item → Bool
  | .flag f => f ≠ .compare
  | .value .. => true
  | .manifest path => !isRedundant files path

namespace Line

/-- The lines differ at most in where they ask for a comparison, and in manifests that are left out of the recorded
line. -/
structure Variant (files : FileTree) (l l' : Line) : Prop where
  pieces : l.pieces.filter (·.item.isKept files) = l'.pieces.filter (·.item.isKept files)
  ended : l.ended.map (·.filter (!isRedundant files ·)) = l'.ended.map (·.filter (!isRedundant files ·))

variable {l l' : Line}

theorem Variant.items (h : l.Variant files l') :
    l.items.filter (·.isKept files) = l'.items.filter (·.isKept files) := by
  have hsplit : ∀ l : Line, l.items.filter (·.isKept files) =
      (l.pieces.filter (·.item.isKept files)).map Piece.item ++
        ((l.ended.map (·.filter (!isRedundant files ·))).getD []).map .manifest := by
    intro l
    rw [Line.items, List.filter_append, List.filter_map, List.filter_map]
    cases l.ended <;> rfl
  rw [hsplit, hsplit, h.pieces, h.ended]

private theorem isUnrecorded_of_isRedundant {path : String} (h : isRedundant files path = true) :
    isUnrecorded files path = true := by
  rw [isUnrecorded, show (_ && _) = true from h]
  rfl

private theorem filter_arguments {p : Piece} (h : p.item.isKept files = false) :
    p.arguments.filter (!isUnrecorded files ·) = [] := by
  cases p with
  | flag f =>
    obtain rfl : f = .compare := by simpa [Piece.item, Item.isKept] using h
    simp [Piece.arguments, isUnrecorded]
  | joined s value => cases h
  | separate s value => cases h
  | manifest path =>
    have hredundant : isRedundant files path = true := by simpa [Piece.item, Item.isKept] using h
    simp [Piece.arguments, isUnrecorded_of_isRedundant hredundant]

private theorem filter_pieces (pieces : List Piece) :
    (pieces.flatMap Piece.arguments).filter (!isUnrecorded files ·) =
      ((pieces.filter (·.item.isKept files)).flatMap Piece.arguments).filter (!isUnrecorded files ·) := by
  induction pieces with
  | nil => rfl
  | cons p pieces ih =>
    rw [List.flatMap_cons, List.filter_append, ih, List.filter_cons]
    cases hp : p.item.isKept files with
    | true => rw [if_pos rfl, List.flatMap_cons, List.filter_append]
    | false => rw [if_neg Bool.false_ne_true, filter_arguments hp, List.nil_append]

private theorem filter_paths (paths : List String) :
    paths.filter (!isUnrecorded files ·) =
      (paths.filter (!isRedundant files ·)).filter (!isUnrecorded files ·) := by
  rw [List.filter_filter]
  refine List.filter_congr fun path _ => ?_
  cases hredundant : isRedundant files path with
  | true => simp [isUnrecorded_of_isRedundant hredundant]
  | false => simp

private theorem filter_ended (ended : Option (List String)) :
    (ended.elim [] ("--" :: ·)).filter (!isUnrecorded files ·) =
      ((ended.map (·.filter (!isRedundant files ·))).elim [] ("--" :: ·)).filter (!isUnrecorded files ·) := by
  cases ended with
  | none => rfl
  | some paths => simp only [Option.map_some, Option.elim_some, List.filter_cons, ← filter_paths]

/-- The same is recorded for both. -/
theorem Variant.recorded (h : l.Variant files l') (program : String) :
    recorded files (program :: l.arguments) = recorded files (program :: l'.arguments) := by
  have harguments : l.arguments.filter (!isUnrecorded files ·) = l'.arguments.filter (!isUnrecorded files ·) := by
    rw [arguments, arguments, List.filter_append, List.filter_append, filter_pieces, filter_pieces l'.pieces,
      filter_ended, filter_ended l'.ended, h.pieces, h.ended]
  unfold CommandLine.recorded
  rw [List.tail_cons, List.tail_cons, harguments]
  rfl

end Line

/-! ### What is accepted -/

namespace Arguments

variable {a b : Arguments} {i : Item} {items : List Item}

/-- What is accepted, without the mode and the manifests that are not recorded. -/
def core (files : FileTree) (a : Arguments) : Arguments where
  flags := a.flags.filter (· ≠ .compare)
  values := a.values
  manifests := a.manifests.filter (!isRedundant files ·)

theorem has_core {f : Flag} (hf : f ≠ .compare) : (a.core files).has f = a.has f := by
  simp [has, core, hf]

/-- An item that makes a difference is accepted or refused in the same way. -/
private theorem acceptItem_core (h : i.isKept files = true) :
    (a.core files).acceptItem i = (a.acceptItem i).map (core files) := by
  cases i with
  | flag f =>
    have hf : f ≠ .compare := by simpa [Item.isKept] using h
    have hflag : (a.core files).acceptFlag f = (a.acceptFlag f).map (core files) := by
      rw [acceptFlag, acceptFlag, has_core hf]
      cases a.has f with
      | true => rfl
      | false =>
        refine congrArg Except.ok ?_
        simp [core, hf, Bool.and_comm]
    cases f with
    | help => rfl
    | version => rfl
    | _ => exact hflag
  | value s value =>
    have hvalue : (a.core files).value? s = a.value? s := rfl
    simp only [acceptItem, acceptValue, hvalue]
    split
    · rfl
    · split <;> rfl
  | manifest path =>
    have hpath : isRedundant files path = false := by simpa [Item.isKept] using h
    simp only [acceptItem]
    split
    · rfl
    · simp [Except.map, core, hpath]

private theorem acceptItem_compare (h : a.has .compare = false) :
    a.acceptItem (.flag .compare) = .ok (a.add (.flag .compare)) := by
  change a.acceptFlag .compare = _
  rw [acceptFlag, h]
  rfl

private theorem acceptItem_redundant {path : String} (h : isRedundant files path = true) (a : Arguments) :
    a.acceptItem (.manifest path) = .ok (a.add (.manifest path)) := by
  have hfile : files.isFile ⟨path⟩ = true := (Bool.and_eq_true_iff.1 h).2
  have hpath : path.isEmpty = false := by
    refine Bool.eq_false_iff.2 fun hempty => ?_
    -- The empty path leads to no file.
    rw [String.isEmpty_iff.1 hempty] at hfile
    cases hfile
  rw [acceptItem, hpath]
  rfl

private theorem core_add (h : i.isKept files = false) : (a.add i).core files = a.core files := by
  cases i with
  | flag f =>
    obtain rfl : f = .compare := by simpa [Item.isKept] using h
    have hall : a.flags.filter (fun g => decide (some g ≠ Flag.opposite? .compare)) = a.flags :=
      List.filter_eq_self.2 fun _ _ => rfl
    rw [add, hall]
    simp [core]
  | value s value => cases h
  | manifest path =>
    have hpath : isRedundant files path = true := by simpa [Item.isKept] using h
    simp [add, core, hpath]

/-- What is accepted is the same but for the mode and the manifests that are not recorded. -/
theorem core_acceptAll (files : FileTree) (h : a.acceptAll items = .ok b) :
    (a.core files).acceptAll (items.filter (·.isKept files)) = .ok (b.core files) := by
  induction items generalizing a with
  | nil =>
    cases h
    rfl
  | cons i items ih =>
    obtain ⟨a', hi, hall⟩ := acceptAll_cons.1 h
    rw [List.filter_cons]
    cases hkept : i.isKept files with
    | true =>
      rw [if_pos rfl, acceptAll_cons]
      refine ⟨a'.core files, ?_, ih hall⟩
      rw [acceptItem_core hkept, hi]
      rfl
    | false =>
      rw [if_neg Bool.false_ne_true, ← core_add hkept, ← (eq_add_of_acceptItem hi).1]
      exact ih hall

/-- Only its flag asks for a comparison, and nothing takes it back. -/
private theorem has_compare_add (a : Arguments) (i : Item) :
    (a.add i).has .compare = true ↔ a.has .compare = true ∨ .flag .compare = i := by
  cases i with
  | flag f =>
    have hopposite : some Flag.compare ≠ f.opposite? := by cases f <;> decide
    simp [has, add, hopposite]
  | value s value => exact (or_iff_left (by simp)).symm
  | manifest path => exact (or_iff_left (by simp)).symm

theorem has_compare_acceptAll (h : a.acceptAll items = .ok b) :
    b.has .compare = true ↔ a.has .compare = true ∨ .flag .compare ∈ items := by
  induction items generalizing a with
  | nil =>
    cases h
    simp
  | cons i items ih =>
    obtain ⟨a', hi, hall⟩ := acceptAll_cons.1 h
    rw [ih hall, (eq_add_of_acceptItem hi).1, has_compare_add, List.mem_cons, or_assoc]

/-- A comparison is asked for at most once. -/
def AsksOnce (a : Arguments) (items : List Item) : Prop :=
  items.count (.flag .compare) + (if a.has .compare then 1 else 0) ≤ 1

private theorem asksOnce_cons (h : a.has .compare = true → i ≠ .flag .compare) :
    AsksOnce a (i :: items) ↔ AsksOnce (a.add i) items := by
  have hadd := has_compare_add a i
  unfold AsksOnce
  rw [List.count_cons]
  by_cases hi : i = .flag .compare
  · have hhas : a.has .compare = false := Bool.eq_false_iff.2 fun hhas => h hhas hi
    rw [if_pos (hadd.2 (.inr hi.symm)), hhas]
    simp [hi]
  · have hsame : (a.add i).has .compare = a.has .compare := by
      rw [Bool.eq_iff_iff, hadd]
      exact or_iff_left (Ne.symm hi)
    rw [hsame]
    simp [hi]

theorem asksOnce_of_acceptAll (h : a.acceptAll items = .ok b) : AsksOnce a items := by
  induction items generalizing a with
  | nil =>
    unfold AsksOnce
    split <;> simp
  | cons i items ih =>
    obtain ⟨a', hi, hall⟩ := acceptAll_cons.1 h
    obtain ⟨rfl, hflag⟩ := eq_add_of_acceptItem hi
    refine (asksOnce_cons fun hhas heq => ?_).2 (ih hall)
    rw [hflag _ heq] at hhas
    cases hhas

/-- Lines that come to the same are accepted together, if none of them asks for a comparison twice. -/
theorem exists_acceptAll {c : Arguments} (h : (a.core files).acceptAll (items.filter (·.isKept files)) = .ok c)
    (honce : AsksOnce a items) : ∃ b, a.acceptAll items = .ok b ∧ b.core files = c := by
  induction items generalizing a with
  | nil =>
    cases h
    exact ⟨a, rfl, rfl⟩
  | cons i items ih =>
    have hnew : a.has .compare = true → i ≠ .flag .compare := by
      rintro hhas rfl
      simp [AsksOnce, hhas] at honce
    have honce' := (asksOnce_cons hnew).1 honce
    have hstep : ∀ a', a.acceptItem i = .ok a' → (a'.core files).acceptAll (items.filter (·.isKept files)) = .ok c →
        ∃ b, a.acceptAll (i :: items) = .ok b ∧ b.core files = c := by
      intro a' hi hall
      rw [(eq_add_of_acceptItem hi).1] at hall
      obtain ⟨b, hb, hcore⟩ := ih hall honce'
      exact ⟨b, acceptAll_cons.2 ⟨a', hi, by rw [(eq_add_of_acceptItem hi).1]; exact hb⟩, hcore⟩
    rw [List.filter_cons] at h
    cases hkept : i.isKept files with
    | true =>
      rw [hkept, if_pos rfl] at h
      obtain ⟨c', hi, hall⟩ := acceptAll_cons.1 h
      rw [acceptItem_core hkept] at hi
      obtain ⟨a', ha, rfl⟩ := map_eq_ok.1 hi
      exact hstep a' ha hall
    | false =>
      rw [hkept, if_neg Bool.false_ne_true, ← core_add hkept] at h
      refine hstep _ ?_ h
      cases i with
      | flag f =>
        obtain rfl : f = .compare := by simpa [Item.isKept] using hkept
        exact acceptItem_compare (Bool.eq_false_iff.2 fun hhas => hnew hhas rfl)
      | value s value => cases hkept
      | manifest path => exact acceptItem_redundant (by simpa [Item.isKept] using hkept) a

/-! ### The configuration -/

theorem values_of_core (h : a.core files = b.core files) : a.values = b.values := by
  change (a.core files).values = (b.core files).values
  rw [h]

theorem has_of_core (h : a.core files = b.core files) {f : Flag} (hf : f ≠ .compare) : a.has f = b.has f := by
  rw [← has_core hf, h, has_core hf]

theorem hasConflict_of_core (h : a.core files = b.core files) : a.hasConflict = b.hasConflict := by
  have hflag {f : Flag} (hf : f ≠ .compare) := has_of_core h hf
  simp [hasConflict, value?, valuesOf, values_of_core h, hflag]

/-- The configuration is the same but for the mode and the sources. -/
theorem configuration_of_core (h : a.core files = b.core files) (commandLine : String) (cache : Option Path) :
    b.configuration commandLine cache =
      { a.configuration commandLine cache with
        sources := b.manifests.map Path.mk
        mode := if b.has .compare then .compare else .write } := by
  have hflag {f : Flag} (hf : f ≠ .compare) := has_of_core h hf
  simp [configuration, naming, rulesOrigin, wantsDefault, value?, valuesOf, values_of_core h, hflag]

end Arguments

/-! ### Whole command lines -/

/-- A command line that is accepted is written as a line.  Each variant of it with a manifest is accepted as long as
it asks for a comparison at most once, and the configurations, with the recorded line, are the same but for the mode
and the sources. -/
theorem configured_alike {cache : Option Path} {program : String} {line : List String} {c : Configuration}
    (h : configure files cache (program :: line) = .ok c) :
    (∃ l : Line, l.Proper ∧ l.arguments = line) ∧
      ∀ l l' : Line, l.Proper → l'.Proper → l.arguments = line → l.Variant files l' → l'.manifests ≠ [] →
        ((∃ c', configure files cache (program :: l'.arguments) = .ok c') ↔
          l'.items.count (.flag .compare) ≤ 1) ∧
        ∀ c', configure files cache (program :: l'.arguments) = .ok c' →
          c' = { c with
            sources := l'.manifests.map Path.mk
            mode := if .flag .compare ∈ l'.items then .compare else .write } := by
  refine ⟨?_, ?_⟩
  · unfold configure at h
    rw [List.tail_cons] at h
    cases ha : Arguments.read line with
    | error e =>
      rw [ha] at h
      cases h
    | ok a => exact Arguments.exists_line (read_eq_ok_iff.1 ha).1
  · rintro l l' hl hl' rfl hvariant hmanifests
    obtain ⟨a, hall, hconflict, -, rfl⟩ := (configure_eq_ok_iff hl).1 h
    have hcore := Arguments.core_acceptAll files hall
    rw [hvariant.items] at hcore
    refine ⟨⟨?_, fun honce => ?_⟩, fun c' h' => ?_⟩
    · rintro ⟨c', h'⟩
      obtain ⟨b, hall', -⟩ := (configure_eq_ok_iff hl').1 h'
      exact Arguments.asksOnce_of_acceptAll hall'
    · obtain ⟨b, hall', hb⟩ := Arguments.exists_acceptAll hcore honce
      have hb' : b.manifests = l'.manifests := Arguments.manifests_acceptAll hall'
      refine ⟨_, (configure_eq_ok_iff hl').2 ⟨b, hall', ?_, hb' ▸ hmanifests, rfl⟩⟩
      rw [Arguments.hasConflict_of_core hb, hconflict]
    · obtain ⟨b, hall', -, -, rfl⟩ := (configure_eq_ok_iff hl').1 h'
      have hb : b.core files = a.core files :=
        Except.ok.inj ((Arguments.core_acceptAll files hall').symm.trans hcore)
      have hmanifests' : b.manifests = l'.manifests := Arguments.manifests_acceptAll hall'
      have hcompare : b.has .compare = true ↔ .flag .compare ∈ l'.items :=
        (Arguments.has_compare_acceptAll hall').trans (or_iff_right nofun)
      rw [Arguments.configuration_of_core hb.symm, ← hvariant.recorded program, hmanifests']
      simp only [hcompare]

/-! ### Two manifests -/

def twoManifests : FileTree where
  entries := ⟨[
    (["a"], .directory), (["a", "package.xml"], .file .empty false),
    (["b"], .directory), (["b", "package.xml"], .file .empty false)]⟩
  home := []

/-- Only the recipe of one package is compared. -/
def comparing : Line := ⟨[.separate .distribution "jazzy", .flag .compare, .manifest "a/package.xml"], none⟩

/-- The recipes of both packages are written. -/
def writing : Line := ⟨[.manifest "b/package.xml", .separate .distribution "jazzy", .manifest "a/package.xml"], none⟩

/-- The same is written for both packages as what one of them is compared with. -/
theorem configured_alike_two :
    ∃ c c', configure twoManifests none ("ros2nix" :: comparing.arguments) = .ok c ∧
      configure twoManifests none ("ros2nix" :: writing.arguments) = .ok c' ∧
      c.commandLine = "ros2nix --distro jazzy" ∧
      c' = { c with sources := [⟨"b/package.xml"⟩, ⟨"a/package.xml"⟩], mode := .write } := by
  have haccepted : (configure twoManifests none ("ros2nix" :: comparing.arguments)).toOption.map (·.commandLine) =
      some "ros2nix --distro jazzy" := by
    decide +kernel
  cases hc : configure twoManifests none ("ros2nix" :: comparing.arguments) with
  | error e =>
    rw [hc] at haccepted
    cases haccepted
  | ok c =>
    rw [hc] at haccepted
    have hproper : comparing.Proper ∧ writing.Proper := by decide +kernel
    have hvariant : comparing.Variant twoManifests writing := ⟨by decide +kernel, by decide +kernel⟩
    have halike := (configured_alike hc).2 _ _ hproper.1 hproper.2 rfl hvariant (by decide +kernel)
    obtain ⟨c', hc'⟩ := halike.1.2 (by decide +kernel)
    exact ⟨c, c', rfl, hc', Option.some.inj haccepted, halike.2 c' hc'⟩

end RosRecipes.CommandLine
