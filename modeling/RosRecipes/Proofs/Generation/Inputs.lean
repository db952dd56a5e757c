import RosRecipes.Proofs.Classification
import RosRecipes.Proofs.Rosdep.Memory

/-!
# Dependencies become inputs

What a database says of the name of an active declaration is among the inputs of the recipe: subtracting categories
from each other loses nothing (`covered_of_classify`).  The database goes on saying it, so at the end of a run it can be
read off what the inputs of a recipe came from (`Job.covered_of_prepare`).

* Each input is in one of the lists that the recipe writes (`Recipe.lists_of_mem`).
* The text of a recipe is its comment, the notice and its lines, as they are or formatted (`Job.recipe_of_prepare`).
-/

namespace RosRecipes

open Rosdep.Database (replies_of_lookup confines_replies confined_replies)

variable {σ : Type} {db : Rosdep.Database} {runner : Runner σ} {m : Manifest} {ctx : Condition.Context} {role : Role}
  {name : String} {resolved resolved' : NameSet} {w w' : World σ}

/-- The database says something of the name, and all packages that it says are there. -/
def Covered (db : Rosdep.Database) (name : String) (resolved : NameSet) (w : World σ) : Prop :=
  ∃ answer packages, db.Replies w name answer ∧ answer.packages? name = some packages ∧ ∀ p ∈ packages, p ∈ resolved

/-- More packages do not matter, nor does what keeps what the database says. -/
theorem Covered.mono (h : Covered db name resolved w) (hmore : ∀ p ∈ resolved, p ∈ resolved')
    (hreplies : ∀ answer, db.Replies w name answer → db.Replies w' name answer) : Covered db name resolved' w' := by
  obtain ⟨answer, packages, hanswer, hpackages, hall⟩ := h
  exact ⟨answer, packages, hreplies answer hanswer, hpackages, fun p hp => hmore p (hall p hp)⟩

/-- A name that is taken for a package of the set is there itself. -/
theorem Covered.mem_of_unknown (h : Covered db name resolved w)
    (hunknown : ((db.lookup runner name Rosdep.targetSystem).perform w).1 = .ok .unknown) :
    attributeName name ∈ resolved := by
  obtain ⟨answer, packages, hanswer, hpackages, hall⟩ := h
  rw [hanswer.lookup] at hunknown
  cases hunknown
  cases hpackages
  exact hall _ (NameSet.mem_ofList.2 (List.mem_singleton_self _))

namespace Manifest

/-! ### Classification -/

private theorem covered_of_resolveName {packages : NameSet}
    (h : (m.resolveName db runner role name).perform w = (.ok packages, w')) : Covered db name packages w' := by
  obtain ⟨found, v, hresolve, hrest⟩ := Action.bind_ok_cases h
  obtain ⟨answer, v', hlookup, hreturn⟩ := Action.bind_ok_cases hresolve
  cases hreturn
  cases hpackages : answer.packages? name with
  | none =>
    rw [hpackages] at hrest
    cases hrest
  | some all =>
    rw [hpackages] at hrest
    cases hrest
    exact ⟨answer, packages, replies_of_lookup hlookup, hpackages, fun p hp => hp⟩

private theorem covered_of_resolveRoles {roles : List Role} (hrole : role ∈ roles)
    (hname : name ∈ m.activeNames ctx role)
    (h : (m.resolveRoles db runner ctx roles).perform w = (.ok resolved, w')) : Covered db name resolved w' := by
  -- one declaration more keeps what is covered, and the one of the name covers it
  have hkeep : ∀ role other, ∀ s u t v, Covered db name s u →
      Action.perform (do return s ∪ (← m.resolveName db runner role other)) u = (.ok t, v) → Covered db name t v := by
    intro role other s u t v hs hstep
    obtain ⟨packages, v', hresolve, hreturn⟩ := Action.bind_ok_cases hstep
    cases hreturn
    refine hs.mono (fun p hp => NameSet.mem_union.2 (.inl hp)) fun answer hanswer => ?_
    exact (confined_resolveName confines_replies.others confined_replies m role other).after hresolve hanswer
  have hstart : ∀ s u t v,
      Action.perform (do return s ∪ (← m.resolveName db runner role name)) u = (.ok t, v) → Covered db name t v := by
    intro s u t v hstep
    obtain ⟨packages, v', hresolve, hreturn⟩ := Action.bind_ok_cases hstep
    cases hreturn
    exact (covered_of_resolveName hresolve).mono (fun p hp => NameSet.mem_union.2 (.inr hp)) fun _ hanswer => hanswer
  refine Action.foldlM_ok_of_mem (P := Covered db name) hrole (fun s u t v hnames => ?_)
    (fun role' _ s u t v hs hnames => ?_) h
  · exact Action.foldlM_ok_of_mem (NameSet.mem_def.1 hname) hstart (fun other _ => hkeep role other) hnames
  · exact Action.foldlM_ok_keeps (fun other _ => hkeep role' other) hs hnames

/-- What the database says of the name of an active declaration is among the inputs, and it goes on saying it. -/
theorem covered_of_classify {c : Categories} (hrole : role ∈ searchedRoles) (hname : name ∈ m.activeNames ctx role)
    (h : (m.classify db runner ctx).perform w = (.ok c, w')) : Covered db name c.all w' := by
  have hkept : ∀ {roles u s v answer}, (m.resolveRoles db runner ctx roles).perform u = (.ok s, v) →
      db.Replies u name answer → db.Replies v name answer := by
    intro roles u s v answer hroles hanswer
    exact (confined_resolveRoles confines_replies.others confined_replies m ctx roles).after hroles hanswer
  obtain ⟨build, w₁, hbuild, h⟩ := Action.bind_ok_cases h
  obtain ⟨propagated, w₂, hpropagated, h⟩ := Action.bind_ok_cases h
  obtain ⟨test, w₃, htest, h⟩ := Action.bind_ok_cases h
  obtain ⟨native, w₄, hnative, h⟩ := Action.bind_ok_cases h
  cases h
  have hall : ∀ p, p ∈ build ∨ p ∈ propagated ∨ p ∈ test →
      p ∈ Categories.all ⟨build \ propagated, propagated, test \ (build \ propagated), native⟩ := by
    intro p hp
    simp only [Categories.all, NameSet.mem_union, NameSet.mem_sdiff]
    by_cases hrun : p ∈ propagated
    · exact .inl (.inl (.inr hrun))
    · by_cases hmake : p ∈ build
      · exact .inl (.inl (.inl ⟨hmake, hrun⟩))
      · rcases hp with hp | hp | hp
        · exact absurd hp hmake
        · exact absurd hp hrun
        · exact .inl (.inr ⟨hp, fun h => hmake h.1⟩)
  have hgroup : role ∈ [Role.build, .buildTool] ∨ role ∈ [Role.exec, .buildExport, .buildToolExport] ∨
      role ∈ [Role.test] := by
    simpa [searchedRoles, or_assoc] using hrole
  rcases hgroup with hgroup | hgroup | hgroup
  · refine (covered_of_resolveRoles hgroup hname hbuild).mono (fun p hp => hall p (.inl hp)) fun answer hanswer => ?_
    exact hkept hnative (hkept htest (hkept hpropagated hanswer))
  · refine (covered_of_resolveRoles hgroup hname hpropagated).mono (fun p hp => hall p (.inr (.inl hp)))
      fun answer hanswer => ?_
    exact hkept hnative (hkept htest hanswer)
  · refine (covered_of_resolveRoles hgroup hname htest).mono (fun p hp => hall p (.inr (.inr hp)))
      fun answer hanswer => ?_
    exact hkept hnative hanswer

end Manifest

/-! ### Recipes -/

namespace Recipe

/-- The lists of inputs, with their names. -/
def inputLists (r : Recipe) : List (String × NameSet) :=
  [("buildInputs", r.inputs.build), ("checkInputs", r.inputs.check), ("propagatedBuildInputs", r.inputs.propagated),
    ("nativeBuildInputs", r.inputs.native)]

/-- A line of the recipe lists the input, among the others of its kind. -/
def Lists (r : Recipe) (input : String) : Prop :=
  ∃ l ∈ r.inputLists, input ∈ l.2 ∧
    "  " ++ l.1 ++ " = [" ++ String.join (l.2.toList.map (" " ++ ·)) ++ " ];" ∈ r.lines

theorem lists_of_mem {r : Recipe} {input : String} (h : input ∈ r.inputs.all) : r.Lists input := by
  have hlist : ∃ l ∈ r.inputLists, input ∈ l.2 := by
    rcases Categories.mem_all.1 h with h | h | h | h
    · exact ⟨("buildInputs", r.inputs.build), by simp [inputLists], h⟩
    · exact ⟨("propagatedBuildInputs", r.inputs.propagated), by simp [inputLists], h⟩
    · exact ⟨("checkInputs", r.inputs.check), by simp [inputLists], h⟩
    · exact ⟨("nativeBuildInputs", r.inputs.native), by simp [inputLists], h⟩
  have hlines : ∀ l ∈ r.inputLists, ∀ line ∈ inputList l.1 l.2, line ∈ r.lines := by
    intro l hl line hline
    simp only [inputLists, List.mem_cons, List.not_mem_nil, or_false] at hl
    simp only [lines, optionalLines, List.mem_append]
    rcases hl with rfl | rfl | rfl | rfl <;> simp [hline]
  obtain ⟨⟨kind, inputs⟩, hmem, hinput⟩ := hlist
  refine ⟨(kind, inputs), hmem, hinput, hlines _ hmem _ ?_⟩
  have hne : inputs.isEmpty = false := List.isEmpty_eq_false_iff_exists_mem.2 ⟨input, hinput⟩
  have hline : "  " ++ kind ++ " = [" ++ String.join (inputs.toList.map (" " ++ ·)) ++ " ];" =
      "  " ++ kind ++ " = " ++ Nix.list inputs.toList ++ ";" := by
    rw [← String.toList_inj]
    simp [Nix.list]
  unfold inputList
  rw [hne, hline]
  exact List.mem_singleton_self _

theorem pname_mem_lines (r : Recipe) :
    "  pname = \"ros-" ++ r.distribution ++ "-" ++ r.name ++ "\";" ∈ r.lines := by
  have htext : "  pname = \"ros-" ++ r.distribution ++ "-" ++ r.name ++ "\";" =
      "  " ++ textAttribute "pname" ("ros-" ++ r.distribution ++ "-" ++ r.name) := by
    rw [← String.toList_inj]
    simp [textAttribute, Nix.quoted]
  rw [htext]
  simp [lines]

end Recipe

/-! ### Preparation -/

namespace Job

variable {job : Job σ} {path : Path} {d : Draft}

/-- The text of a recipe: the comment with the command line, the notice, and the lines of the recipe. -/
def plainText (job : Job σ) (r : Recipe) : String :=
  PackageSet.generatedBy job.configuration.commandLine ++ job.notice.render ++ String.join (r.lines.map (· ++ "\n"))

/-- A text stays as it is, or if the recipes are formatted, some answer of the formatter to it takes its place. -/
def Finishes (job : Job σ) (plain text : String) : Prop :=
  if job.configuration.nixfmt then
    ∃ w output, ((Action.call job.runner (formatCommand plain)).perform w).1 = .ok output ∧ output.stdout = text
  else text = plain

/-- The text of a recipe is emitted as it is, or formatted. -/
private theorem finishes_of_recipeText {r : Recipe} {text : String}
    (h : (job.recipeText r).perform w = (.ok text, w')) : job.Finishes (job.plainText r) text := by
  have hplain : job.plainText r = PackageSet.generatedBy job.configuration.commandLine ++ r.render job.notice :=
    String.append_assoc
  unfold recipeText at h
  unfold Finishes
  rw [hplain]
  split at h
  · next hformat =>
    obtain ⟨output, v, hcall, hreturn⟩ := Action.bind_ok_cases h
    cases hreturn
    rw [if_pos hformat]
    exact ⟨w, output, by rw [hcall], rfl⟩
  · next hformat =>
    cases h
    rw [if_neg hformat]

/-- The recipe of a draft is that of its manifest, and what is emitted is its text. -/
theorem recipe_of_prepare (h : (job.prepare path).perform w = (.ok d, w')) :
    d.recipe.name = attributeName d.manifest.name ∧ d.recipe.distribution = job.configuration.distribution ∧
      job.Finishes (job.plainText d.recipe) d.text := by
  obtain ⟨manifest, w₁, -, h⟩ := Action.bind_ok_cases h
  obtain ⟨inputs, w₂, -, h⟩ := Action.bind_ok_cases h
  obtain ⟨⟨source, patches⟩, w₃, -, h⟩ := Action.bind_ok_cases h
  obtain ⟨text, w₄, htext, h⟩ := Action.bind_ok_cases h
  cases h
  exact ⟨rfl, rfl, finishes_of_recipeText htext⟩

/-- What the database says of the name of an active declaration is among the inputs of the recipe. -/
theorem covered_of_prepare (hrole : role ∈ Manifest.searchedRoles) (h : (job.prepare path).perform w = (.ok d, w'))
    (hname : name ∈ d.manifest.activeNames job.context role) :
    Covered job.database name d.recipe.inputs.all w' := by
  obtain ⟨manifest, w₁, -, h⟩ := Action.bind_ok_cases h
  obtain ⟨inputs, w₂, hinputs, h⟩ := Action.bind_ok_cases h
  obtain ⟨⟨source, patches⟩, w₃, hsource, h⟩ := Action.bind_ok_cases h
  obtain ⟨text, w₄, htext, h⟩ := Action.bind_ok_cases h
  cases h
  obtain ⟨categories, w₅, hclassify, hreturn⟩ := Action.bind_ok_cases hinputs
  cases hreturn
  refine (Manifest.covered_of_classify hrole hname hclassify).mono
    (fun p hp => Categories.mem_all_extend.2 (.inl hp)) fun answer hanswer => ?_
  have hsaid := (confined_sourceOf (fun _ => confines_replies.resolve _ _) path).after hsource hanswer
  exact (confined_recipeText confines_replies.others _).after htext hsaid

end Job

end RosRecipes
