import RosRecipes.Proofs.CommandLine.Acceptance

/-!
# The last flag of a pair

A flag takes back its opposite, so the last flag of a pair decides, and what else is on the command line makes no
difference to it.  Other options, and manifests, may stand anywhere (`Line.Rearranged`): they are accepted together,
and come to the same configuration but for the order of what there is more than one of (`Configuration.Reordered`).

* `lastGiven_arguments`: the last flag of a pair, among the arguments as they are given.
* `Line.Rearranged.acceptable` and `Arguments.Reordered.configuration` are about what is rearranged.
* `last_flag_wins`: both, for a whole command line.
-/

namespace RosRecipes

/-- The rules are the same but for the order of the files. -/
def RulesOrigin.Reordered : RulesOrigin → RulesOrigin → Prop
  | .files paths, .files paths' => paths.Perm paths'
  | origin, origin' => origin = origin'

/-- The configurations are the same but for the order of sources and repeated values, and for the recorded line. -/
structure Configuration.Reordered (c c' : Configuration) : Prop where
  sources : c.sources.Perm c'.sources
  build : c.extraInputs.build.Perm c'.extraInputs.build
  propagated : c.extraInputs.propagated.Perm c'.extraInputs.propagated
  check : c.extraInputs.check.Perm c'.extraInputs.check
  native : c.extraInputs.native.Perm c'.extraInputs.native
  rules : c.rules.Reordered c'.rules
  rest : c' = { c with
    sources := c'.sources
    extraInputs := c'.extraInputs
    rules := c'.rules
    commandLine := c'.commandLine }

namespace CommandLine

/-! ### The last of some options -/

/-- The last of these options on a command line.  What stands after two hyphens is no option. -/
def lastGiven (options arguments : List String) : Option String :=
  ((arguments.takeWhile (· ≠ "--")).filter (· ∈ options)).getLast?

/-- How a flag is written. -/
def Flag.option (f : Flag) : String := "--" ++ f.name

variable {f g : Flag} {p : Piece} {l l' : Line}

theorem of_option (f : Flag) : Arguments.Argument.of f.option = .option f.name none :=
  Arguments.of_name (Arguments.plain_flag f).1 (Arguments.plain_flag f).2

theorem of_setting (s : Setting) : Arguments.Argument.of ("--" ++ s.name) = .option s.name none :=
  Arguments.of_name (Arguments.plain_setting s).1 (Arguments.plain_setting s).2

theorem name_inj : f.name = g.name ↔ f = g := by
  refine ⟨fun h => ?_, congrArg _⟩
  have hf := Arguments.ofName?_flag f
  rw [h, Arguments.ofName?_flag] at hf
  exact (Option.some.inj hf).symm

theorem option_injective : Function.Injective Flag.option := by
  intro f g h
  have hof := of_option f
  rw [h, of_option] at hof
  cases name_inj.1 (Arguments.Argument.option.inj hof).1
  rfl

/-- What is not a flag is not one of the pair. -/
private theorem not_mem_options {text : String} (h : ∀ g : Flag, Arguments.Argument.of text ≠ .option g.name none) :
    text ∉ f.pair.map Flag.option := by
  intro hmem
  obtain ⟨g, -, rfl⟩ := List.mem_map.1 hmem
  exact h g (of_option g)

private theorem setting_not_mem_options (s : Setting) : "--" ++ s.name ∉ f.pair.map Flag.option := by
  refine not_mem_options fun g hg => ?_
  rw [of_setting] at hg
  have hsetting := (Arguments.ofName?_setting s).1
  rw [(Arguments.Argument.option.inj hg).1, Arguments.ofName?_flag] at hsetting
  cases hsetting

private theorem word_not_mem_options {text : String} (h : Arguments.Argument.of text = .word text) :
    text ∉ f.pair.map Flag.option :=
  not_mem_options fun _ hg => nomatch h.symm.trans hg

/-- Of a piece, only the flag is one of the options. -/
private theorem filter_piece (hp : p.Proper) :
    p.arguments.filter (· ∈ f.pair.map Flag.option) = (p.item.flagOf? f).toList.map Flag.option := by
  cases p with
  | flag g =>
    have hmem : "--" ++ g.name ∈ f.pair.map Flag.option ↔ g ∈ f.pair :=
      List.mem_map_of_injective option_injective
    simp only [Piece.arguments, Piece.item, Item.flagOf?, List.filter_singleton, hmem]
    by_cases hg : g ∈ f.pair <;> simp [hg, Flag.option]
  | joined s value =>
    have hjoined : "--" ++ s.name ++ "=" ++ value ∉ f.pair.map Flag.option :=
      not_mem_options fun g hg => by
        have hvalue := (Arguments.of_joined (Arguments.plain_setting s).2 value).symm.trans hg
        cases (Arguments.Argument.option.inj hvalue).2
    simp only [Piece.arguments, List.filter_singleton, hjoined]
    rfl
  | separate s value =>
    have hname := setting_not_mem_options (f := f) s
    have hvalue := word_not_mem_options (f := f) hp
    simp only [Piece.arguments, List.filter_cons, hname, hvalue]
    rfl
  | manifest path =>
    have hpath := word_not_mem_options (f := f) hp
    simp only [Piece.arguments, List.filter_singleton, hpath]
    rfl

private theorem ne_end (hp : p.Proper) : ∀ text ∈ p.arguments, text ≠ "--" := by
  have hend : Arguments.Argument.of "--" = .endOfOptions := rfl
  have hoption : ∀ {text name value}, Arguments.Argument.of text = .option name value → text ≠ "--" := by
    rintro text name value h rfl
    cases hend.symm.trans h
  have hword : ∀ {text}, Arguments.Argument.of text = .word text → text ≠ "--" := by
    rintro text h rfl
    cases hend.symm.trans h
  cases p with
  | flag g => exact List.forall_mem_singleton.2 (hoption (of_option g))
  | joined s value =>
    exact List.forall_mem_singleton.2 (hoption (Arguments.of_joined (Arguments.plain_setting s).2 value))
  | separate s value => exact List.forall_mem_cons.2 ⟨hoption (of_setting s), List.forall_mem_singleton.2 (hword hp)⟩
  | manifest path => exact List.forall_mem_singleton.2 (hword hp)

/-- The last flag of a pair, among the arguments as they are given. -/
theorem lastGiven_arguments (hl : l.Proper) (f : Flag) :
    lastGiven (f.pair.map Flag.option) l.arguments = (flagsIn f l.items).getLast?.map Flag.option := by
  have hbefore : l.arguments.takeWhile (· ≠ "--") = l.pieces.flatMap Piece.arguments := by
    have hall : ∀ text ∈ l.pieces.flatMap Piece.arguments, decide (text ≠ "--") = true := by
      intro text htext
      obtain ⟨p, hp, htext⟩ := List.mem_flatMap.1 htext
      exact decide_eq_true (ne_end (hl p hp) text htext)
    rw [Line.arguments, List.takeWhile_append_of_pos hall]
    cases l.ended <;> simp
  have hflags : flagsIn f l.items = l.pieces.flatMap fun p => (p.item.flagOf? f).toList := by
    rw [Line.items, flagsIn, List.filterMap_append, ← flagsIn, ← flagsIn, flagsIn_manifests, List.append_nil, flagsIn,
      List.filterMap_map, List.filterMap_eq_flatMap_toList]
    rfl
  have hpieces : (l.pieces.flatMap Piece.arguments).filter (· ∈ f.pair.map Flag.option) =
      (flagsIn f l.items).map Flag.option := by
    rw [hflags, List.filter_flatMap, List.map_flatMap]
    exact List.flatMap_congr fun p hp => filter_piece (hl p hp)
  rw [lastGiven, hbefore, hpieces, List.getLast?_map]

theorem has_iff_lastGiven {a : Arguments} (hl : l.Proper) (h : Arguments.acceptAll {} l.items = .ok a)
    (hg : g ∈ f.pair) : a.has g = true ↔ lastGiven (f.pair.map Flag.option) l.arguments = some g.option := by
  rw [lastGiven_arguments hl, Arguments.has_acceptAll h, flagsIn_eq_of_mem_pair hg]
  cases (flagsIn f l.items).getLast? with
  | none => simp [Arguments.has]
  | some k => simp [option_injective.eq_iff]

theorem mem_of_lastGiven {options arguments : List String} {text : String}
    (h : lastGiven options arguments = some text) : text ∈ options := by
  have hmem := List.mem_of_getLast? h
  simpa using (List.mem_filter.1 hmem).2

theorem wantsDefault_eq_lastGiven {a : Arguments} (hl : l.Proper) (h : Arguments.acceptAll {} l.items = .ok a) :
    a.wantsDefault = (lastGiven ["--default", "--no-default"] l.arguments).map (· == "--default") := by
  have hdefault : a.has .default = true ↔ lastGiven ["--default", "--no-default"] l.arguments = some "--default" :=
    has_iff_lastGiven hl h (f := .default) (by decide)
  have hno : a.has .noDefault = true ↔ lastGiven ["--default", "--no-default"] l.arguments = some "--no-default" :=
    has_iff_lastGiven hl h (f := .default) (by decide)
  cases hlast : lastGiven ["--default", "--no-default"] l.arguments with
  | none => simp [Arguments.wantsDefault, hdefault, hno, hlast]
  | some text =>
    have hmem := mem_of_lastGiven hlast
    rw [List.mem_pair] at hmem
    rcases hmem with rfl | rfl
    · simp [Arguments.wantsDefault, hdefault, hlast]
    · simp [Arguments.wantsDefault, hdefault, hno, hlast]

/-! ### Rearranged lines -/

/-- What is on the line may be moved, but the flags of a pair stay in order, and nothing moves across two hyphens. -/
structure Line.Rearranged (l l' : Line) : Prop where
  pieces : l.pieces.Perm l'.pieces
  flags : ∀ f : Flag, f.opposite?.isSome = true → flagsIn f l.items = flagsIn f l'.items
  ended : Option.Rel List.Perm l.ended l'.ended

namespace Line.Rearranged

theorem proper (h : l.Rearranged l') (hl : l.Proper) : l'.Proper := fun p hp => hl p (h.pieces.mem_iff.2 hp)

theorem items_perm (h : l.Rearranged l') : l.items.Perm l'.items := by
  have hgetD : ∀ {ended ended' : Option (List String)}, Option.Rel List.Perm ended ended' →
      (ended.getD []).Perm (ended'.getD []) := by
    rintro _ _ (hperm | _)
    · exact hperm
    · exact .nil
  exact (h.pieces.map _).append ((hgetD h.ended).map _)

/-- The flags of every pair stay in order, as those without an opposite are all the same. -/
theorem flagsIn_eq (h : l.Rearranged l') (f : Flag) : flagsIn f l.items = flagsIn f l'.items := by
  cases hopposite : f.opposite? with
  | some g => exact h.flags f (by rw [hopposite]; rfl)
  | none =>
    have hsame : ∀ items, ∀ g ∈ flagsIn f items, g = f := by
      intro items g hg
      simpa [Flag.pair, hopposite] using mem_pair_of_mem_flagsIn hg
    have hperm : (flagsIn f l.items).Perm (flagsIn f l'.items) := h.items_perm.filterMap _
    have hall := List.eq_replicate_iff.2 ⟨rfl, hsame l'.items⟩
    rw [hall] at hperm ⊢
    exact List.perm_replicate.1 hperm

theorem valuesIn_perm (h : l.Rearranged l') (s : Setting) : (valuesIn s l.items).Perm (valuesIn s l'.items) :=
  h.items_perm.filterMap _

theorem manifests_perm (h : l.Rearranged l') : l.manifests.Perm l'.manifests := h.items_perm.filterMap _

/-- Lines that are rearranged are accepted together. -/
theorem acceptable (h : l.Rearranged l') (hitems : Acceptable l.items) : Acceptable l'.items where
  sound i hi := hitems.sound i (h.items_perm.mem_iff.2 hi)
  alternate f := h.flagsIn_eq f ▸ hitems.alternate f
  once s hs := (h.valuesIn_perm s).length_eq ▸ hitems.once s hs

end Line.Rearranged

/-! ### The configuration -/

namespace Arguments

variable {a a' : Arguments}

/-- The same but for the order of manifests, and of the values of a setting. -/
structure Reordered (a a' : Arguments) : Prop where
  has : ∀ f, a.has f = a'.has f
  values : ∀ s, (a.valuesOf s).Perm (a'.valuesOf s)
  once : ∀ s : Setting, s.isRepeatable = false → (a.valuesOf s).length ≤ 1
  manifests : a.manifests.Perm a'.manifests

theorem reordered_acceptAll (h : l.Rearranged l') (ha : acceptAll {} l.items = .ok a)
    (ha' : acceptAll {} l'.items = .ok a') : a.Reordered a' where
  has f := by rw [has_acceptAll ha, has_acceptAll ha', h.flagsIn_eq]
  values s := by
    rw [valuesOf_acceptAll ha, valuesOf_acceptAll ha']
    exact h.valuesIn_perm s
  once s hs := by
    rw [valuesOf_acceptAll ha]
    exact (exists_acceptAll_iff.1 ⟨a, ha⟩).once s hs
  manifests := by
    rw [manifests_acceptAll ha, manifests_acceptAll ha']
    exact h.manifests_perm

namespace Reordered

/-- There is nothing to reorder in the values of a setting that is given once. -/
theorem value?_eq (h : a.Reordered a') {s : Setting} (hs : s.isRepeatable = false) : a.value? s = a'.value? s := by
  have hperm := h.values s
  have hlength := h.once s hs
  rw [value?, value?]
  rcases Nat.le_one_iff_eq_zero_or_eq_one.1 hlength with hnone | hone
  · rw [List.length_eq_zero_iff.1 hnone] at hperm ⊢
    rw [hperm.symm.eq_nil]
  · obtain ⟨value, hvalue⟩ := List.length_eq_one_iff.1 hone
    rw [hvalue] at hperm ⊢
    rw [List.perm_singleton.1 hperm.symm]

theorem isSome_value?_eq (h : a.Reordered a') (s : Setting) : (a.value? s).isSome = (a'.value? s).isSome := by
  rw [Bool.eq_iff_iff, value?, value?, List.isSome_head?, List.isSome_head?, Ne, Ne, not_iff_not]
  exact ⟨fun hnil => (hnil ▸ h.values s).symm.eq_nil, fun hnil => (hnil ▸ h.values s).eq_nil⟩

theorem hasConflict_eq (h : a.Reordered a') : a.hasConflict = a'.hasConflict := by
  simp only [hasConflict, h.has, h.isSome_value?_eq]

theorem namesOf_perm (h : a.Reordered a') (s : Setting) : (namesOf (a.valuesOf s)).Perm (namesOf (a'.valuesOf s)) :=
  (((h.values s).flatMap_right _).filter _).map _

theorem rulesOrigin (h : a.Reordered a') : a.rulesOrigin.Reordered a'.rulesOrigin := by
  unfold Arguments.rulesOrigin
  rw [h.has]
  cases a'.has .noRules with
  | true => rfl
  | false =>
    have hperm := h.values .rules
    rw [if_neg Bool.false_ne_true, if_neg Bool.false_ne_true]
    match a.valuesOf .rules, a'.valuesOf .rules, hperm with
    | [], [], _ => rfl
    | [], _ :: _, hperm => cases hperm.symm.eq_nil
    | _ :: _, [], hperm => cases hperm.eq_nil
    | _ :: _, _ :: _, hperm => exact hperm.map _

/-- The configuration is the same but for the order. -/
theorem configuration (h : a.Reordered a') (commandLine commandLine' : String) (cache : Option Path) :
    (a.configuration commandLine cache).Reordered (a'.configuration commandLine' cache) where
  sources := h.manifests.map _
  build := h.namesOf_perm _
  propagated := h.namesOf_perm _
  check := h.namesOf_perm _
  native := h.namesOf_perm _
  rules := h.rulesOrigin
  rest := by
    have hvalue (s : Setting) (hs : s.isRepeatable = false) : a'.value? s = a.value? s := (h.value?_eq hs).symm
    simp only [Arguments.configuration, naming, wantsDefault, h.has, hvalue .output rfl, hvalue .directory rfl,
      hvalue .distribution rfl, hvalue .sourceParameter rfl, hvalue .sourceRoot rfl, hvalue .overlayReference rfl,
      hvalue .holder rfl, hvalue .license rfl]

end Reordered

end Arguments

/-! ### Whole command lines -/

variable {files : FileTree} {cache : Option Path} {program : String} {c : Configuration}

/-- A line that is rearranged is accepted as well, and comes to the same but for the order. -/
theorem configure_rearranged (hl : l.Proper) (h : l.Rearranged l')
    (hc : configure files cache (program :: l.arguments) = .ok c) :
    ∃ c', configure files cache (program :: l'.arguments) = .ok c' ∧ c.Reordered c' ∧
      c'.sources = l'.manifests.map Path.mk ∧
      ((∀ s, valuesIn s l.items = valuesIn s l'.items) → c'.extraInputs = c.extraInputs ∧ c'.rules = c.rules) := by
  obtain ⟨a, ha, hconflict, hmanifests, rfl⟩ := (configure_eq_ok_iff hl).1 hc
  obtain ⟨a', ha'⟩ := Arguments.exists_acceptAll_iff.2 (h.acceptable (Arguments.exists_acceptAll_iff.1 ⟨a, ha⟩))
  have hreordered := Arguments.reordered_acceptAll h ha ha'
  have hconflict' : a'.hasConflict = false := hreordered.hasConflict_eq ▸ hconflict
  have hmanifests' : a'.manifests ≠ [] := fun hnil => hmanifests (hnil ▸ hreordered.manifests).eq_nil
  refine ⟨_, (configure_eq_ok_iff (h.proper hl)).2 ⟨a', ha', hconflict', hmanifests', rfl⟩,
    hreordered.configuration _ _ cache, congrArg (List.map Path.mk) (Arguments.manifests_acceptAll ha'),
    fun hvalues => ?_⟩
  have hvaluesOf : ∀ s, a'.valuesOf s = a.valuesOf s := by
    intro s
    rw [Arguments.valuesOf_acceptAll ha, Arguments.valuesOf_acceptAll ha', hvalues]
  simp only [Arguments.configuration, Arguments.rulesOrigin, hvaluesOf, hreordered.has, and_self]

/-- The last flag of each pair decides on a command line that is accepted, whatever else is on it.  The line is accepted
as well after it is rearranged, and the configuration is the same but for the order of the sources, which are the
manifests as they stand, and of the values of settings that have several. -/
theorem last_flag_wins {arguments : List String} (h : configure files cache (program :: arguments) = .ok c) :
    (c.patches = true ↔ lastGiven ["--patches", "--no-patches"] arguments = some "--patches") ∧
    c.default = (lastGiven ["--default", "--no-default"] arguments).map (· == "--default") ∧
    (c.overlay = false ↔ lastGiven ["--overlay", "--no-overlay"] arguments = some "--no-overlay") ∧
    (c.shell = false ↔ lastGiven ["--shell", "--no-shell"] arguments = some "--no-shell") ∧
    (∃ l : Line, l.Proper ∧ l.arguments = arguments) ∧
    ∀ l l' : Line, l.Proper → l.arguments = arguments → l.Rearranged l' →
      ∃ c', configure files cache (program :: l'.arguments) = .ok c' ∧ c.Reordered c' ∧
        c'.sources = l'.manifests.map Path.mk ∧
        ((∀ s, valuesIn s l.items = valuesIn s l'.items) → c'.extraInputs = c.extraInputs ∧ c'.rules = c.rules) := by
  have hrearranged : ∀ l l' : Line, l.Proper → l.arguments = arguments → l.Rearranged l' → _ :=
    fun l l' hl harguments hl' => configure_rearranged hl hl' (harguments ▸ h)
  obtain ⟨l, hl, rfl⟩ := exists_line_of_configure h
  obtain ⟨a, ha, -, -, rfl⟩ := (configure_eq_ok_iff hl).1 h
  have hhas {f g : Flag} (hg : g ∈ f.pair) := has_iff_lastGiven hl ha hg
  have hpatches : .patches ∈ Flag.pair .patches := by decide
  have hoverlay : .noOverlay ∈ Flag.pair .overlay := by decide
  have hshell : .noShell ∈ Flag.pair .shell := by decide
  have hnot : ∀ b : Bool, (!b) = false ↔ b = true := by decide
  exact ⟨hhas hpatches, wantsDefault_eq_lastGiven hl ha, (hnot _).trans (hhas hoverlay),
    (hnot _).trans (hhas hshell), ⟨l, hl, rfl⟩, hrearranged⟩

/-- Patches are asked for, refused and asked for again. -/
def alternating : Line where
  pieces := [
    .manifest "a/package.xml", .flag .patches, .flag .noPatches, .joined .extraBuild "curl", .flag .fetch,
    .flag .noShell, .flag .patches, .separate .extraBuild "jq"]
  ended := some ["b/package.xml"]

/-- The same with other options and the manifest in other places. -/
def regrouped : Line where
  pieces := [
    .flag .noShell, .flag .patches, .separate .extraBuild "jq", .flag .noPatches, .flag .patches,
    .joined .extraBuild "curl", .flag .fetch, .manifest "a/package.xml"]
  ended := some ["b/package.xml"]

/-- The last flag counts on both lines, and the inputs keep the order in which they are given. -/
theorem last_flag_wins_alternating :
    ∃ c c', configure ⟨⟨[]⟩, []⟩ none ("ros2nix" :: alternating.arguments) = .ok c ∧
      configure ⟨⟨[]⟩, []⟩ none ("ros2nix" :: regrouped.arguments) = .ok c' ∧
      c.patches = true ∧ c.default = none ∧ c.overlay = true ∧ c.shell = false ∧ c.Reordered c' ∧
      c'.sources = [⟨"a/package.xml"⟩, ⟨"b/package.xml"⟩] := by
  have haccepted : (configure ⟨⟨[]⟩, []⟩ none ("ros2nix" :: alternating.arguments)).toOption.isSome = true := by
    decide +kernel
  cases hc : configure ⟨⟨[]⟩, []⟩ none ("ros2nix" :: alternating.arguments) with
  | error e =>
    rw [hc] at haccepted
    cases haccepted
  | ok c =>
    have hproper : alternating.Proper := by decide +kernel
    have hrearranged : alternating.Rearranged regrouped :=
      ⟨by decide +kernel, fun f => by cases f <;> decide +kernel, .some (.refl _)⟩
    obtain ⟨hpatches, hdefault, hoverlay, hshell, -, halike⟩ := last_flag_wins hc
    obtain ⟨c', hc', hreordered, hsources, -⟩ := halike _ _ hproper rfl hrearranged
    refine ⟨c, c', rfl, hc', hpatches.2 (by decide +kernel), ?_, ?_, hshell.2 (by decide +kernel), hreordered, hsources⟩
    · rw [hdefault]
      decide +kernel
    · rw [← Bool.not_eq_false, hoverlay]
      decide +kernel

end CommandLine

end RosRecipes
