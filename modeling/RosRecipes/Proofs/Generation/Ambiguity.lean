import RosRecipes.Proofs.Generation.Inputs
import RosRecipes.Proofs.Provenance.Patches
import RosRecipes.Proofs.Recipe.Names

/-!
# Ambiguous names

The recipe of a package takes its parameters from three places: the library and the builder, the source, and the inputs.
Nothing keeps an input, or a parameter that was asked for, from having the name of another parameter or of an attribute
that the recipe defines itself.  Without such a name, no parameter is there twice, and every name of a recipe is the
name of a parameter (`Job.unambiguous_iff`); with one, it is ambiguous (`Job.names_collide`).
-/

namespace RosRecipes

open Nix (Expression Scope)
open Nix.Expression (attributeNames)

namespace Recipe

variable {r : Recipe}

/-- The parameters of every recipe. -/
def fixedParameters : List String := ["lib", "buildRosPackage"]

/-- The attributes that a recipe may have. -/
def ownNames : List String :=
  ["pname", "version", "src", "buildType", "patches", "sourceRoot", "doCheck", "buildInputs", "checkInputs",
    "propagatedBuildInputs", "nativeBuildInputs", "meta"]

theorem attributeNames_sublist (r : Recipe) : (attributeNames r.attributes).Sublist ownNames := by
  have hinput : ∀ name inputs, (attributeNames (inputAttribute name inputs)).Sublist [name] := by
    intro name inputs
    unfold inputAttribute
    split
    · exact List.nil_sublist _
    · exact .refl _
  have hoption : ∀ {α : Type} (o : Option α) (name : String) (f : α → Expression),
      (attributeNames (o.map fun a => ("  ", name, f a)).toList).Sublist [name] := by
    intro α o name f
    cases o with
    | none => exact List.nil_sublist _
    | some a => exact .refl _
  have hpatches : (attributeNames (if r.options.patches.isEmpty then []
      else [("  ", "patches", .list "\n    " "\n  " (r.options.patches.map .constant))])).Sublist ["patches"] := by
    split
    · exact List.nil_sublist _
    · exact .refl _
  have hoptional : (attributeNames r.optionalAttributes).Sublist
      (["patches"] ++ ["sourceRoot"] ++ ["doCheck"] ++ ["buildInputs"] ++ ["checkInputs"] ++
        ["propagatedBuildInputs"] ++ ["nativeBuildInputs"]) := by
    simp only [optionalAttributes, attributeNames, List.map_append]
    exact ((((((hpatches.append (hoption _ _ _)).append (hoption _ _ _)).append (hinput _ _)).append
      (hinput _ _)).append (hinput _ _)).append (hinput _ _))
  simp only [attributes, attributeNames, List.map_append]
  exact ((List.Sublist.refl ["pname", "version", "src", "buildType"]).append hoptional).append (.refl ["meta"])

theorem not_mem_attributeNames {name : String} (h : name ∉ ownNames) : name ∉ attributeNames r.attributes :=
  fun hmem => h (r.attributeNames_sublist.subset hmem)

/-- A parameter is there twice just if an input has the name of another one, or the source that of a fixed one. -/
theorem nodup_parameters_iff :
    r.parameters.Nodup ↔
      (∀ input ∈ r.inputs.all, firstComponent input ∉ fixedParameters ++ r.options.sourceParameter.toList) ∧
        ∀ name ∈ r.options.sourceParameter, name ∉ fixedParameters := by
  have hparameters : r.parameters =
      fixedParameters ++ r.options.sourceParameter.toList ++ (r.inputs.all.image firstComponent).toList := rfl
  have hsource : (fixedParameters ++ r.options.sourceParameter.toList).Nodup ↔
      ∀ name ∈ r.options.sourceParameter, name ∉ fixedParameters := by
    cases r.options.sourceParameter with
    | none => simp [fixedParameters]
    | some name => simp [fixedParameters, and_comm, eq_comm]
  have happart : (∀ a ∈ fixedParameters ++ r.options.sourceParameter.toList,
      ∀ b ∈ (r.inputs.all.image firstComponent).toList, a ≠ b) ↔
      ∀ input ∈ r.inputs.all, firstComponent input ∉ fixedParameters ++ r.options.sourceParameter.toList := by
    constructor
    · intro h input hinput hmem
      exact h _ hmem _ (NameSet.mem_def.1 (NameSet.mem_image.2 ⟨input, hinput, rfl⟩)) rfl
    · rintro h a ha b hb rfl
      obtain ⟨input, hinput, rfl⟩ := NameSet.mem_image.1 (NameSet.mem_def.2 hb)
      exact h input hinput ha
  have hheads := (r.inputs.all.image firstComponent).nodup_toList
  rw [hparameters, List.nodup_append, hsource, happart]
  constructor
  · rintro ⟨hsource, -, happart⟩
    exact ⟨happart, hsource⟩
  · rintro ⟨happart, hsource⟩
    exact ⟨hsource, hheads, happart⟩

/-- The parameters bind the names of a recipe just if its own attributes have other names than the source parameter and
the inputs. -/
theorem bound_by_parameters_iff (h : r.options.sourceParameter = r.source.parameter?) :
    (∀ occurrence ∈ r.expression.occurrences .empty, occurrence.2 = some .parameter) ↔
      (∀ input ∈ r.inputs.all, firstComponent input ∉ attributeNames r.attributes) ∧
        ∀ name ∈ r.source.parameter?, name ∉ attributeNames r.attributes := by
  have hbody : r.expression.occurrences .empty = r.body.occurrences (Scope.empty.bind .parameter r.parameters) := rfl
  have hbuilder : Scope.empty.bind .parameter r.parameters "buildRosPackage" = some .parameter :=
    Scope.bind_of_mem (mem_parameters.2 (.inr (.inl rfl)))
  -- a name among the attributes is that of a parameter, so an attribute is all that can capture it
  have hbound : ∀ name ∈ r.mentioned, ((Scope.empty.bind .parameter r.parameters).bind .attribute
      (attributeNames r.attributes) name = some .parameter ↔ name ∉ attributeNames r.attributes) := by
    intro name hname
    have hparameter : name ∈ r.parameters := (mem_parameters_iff_mem_names h).2 (mem_names_body.2 (.inr hname))
    by_cases hown : name ∈ attributeNames r.attributes
    · simp [Scope.bind_of_mem hown, hown]
    · simp [Scope.bind_of_not_mem hown, Scope.bind_of_mem hparameter, hown]
  have hlib : "lib" ∉ attributeNames r.attributes := not_mem_attributeNames (by decide)
  rw [hbody, occurrences_body, List.forall_mem_cons, List.forall_mem_map]
  simp only [hbuilder, true_and]
  constructor
  · intro hall
    have hfree : ∀ name ∈ r.mentioned, name ∉ attributeNames r.attributes :=
      fun name hname => (hbound name hname).1 (hall name hname)
    exact ⟨fun input hinput => hfree _ (mem_mentioned.2 (.inr (.inl ⟨input, hinput, rfl⟩))),
      fun name hname => hfree name (mem_mentioned.2 (.inl hname))⟩
  · rintro ⟨hinputs, hsource⟩ name hname
    refine (hbound name hname).2 ?_
    rcases mem_mentioned.1 hname with hname | ⟨input, hinput, rfl⟩ | rfl
    · exact hsource name hname
    · exact hinputs input hinput
    · exact hlib

end Recipe

namespace Job

variable {σ : Type} {job : Job σ} {path : Path} {d : Draft} {w w' : World σ}

theorem parameter?_localSource (c : Configuration) (home manifest : Path) :
    (c.localSource home manifest).parameter? = none := by
  have hdirectory : ∀ text, (Source.ofDirectory text).parameter? = none := by
    intro text
    simp only [Source.ofDirectory]
    split <;> rfl
  unfold Configuration.localSource
  split <;> exact hdirectory _

/-- The source of a recipe needs the parameter that was asked for, or it is fetched. -/
theorem parameter_of_prepare (h : (job.prepare path).perform w = (.ok d, w')) :
    d.recipe.options.sourceParameter = d.recipe.source.parameter? ∧
      (d.recipe.source.parameter? = job.configuration.sourceParameter ∨
        job.configuration.sourceParameter = none ∧ ∃ s, d.recipe.source = .git s) := by
  obtain ⟨manifest, w₁, -, h⟩ := Action.bind_ok_cases h
  obtain ⟨inputs, w₂, -, h⟩ := Action.bind_ok_cases h
  obtain ⟨⟨source, patches⟩, w₃, hsource, h⟩ := Action.bind_ok_cases h
  obtain ⟨text, w₄, -, h⟩ := Action.bind_ok_cases h
  cases h
  refine ⟨rfl, ?_⟩
  show source.parameter? = _ ∨ _ ∧ ∃ s, source = .git s
  unfold sourceOf at hsource
  cases hparameter : job.configuration.sourceParameter with
  | some name =>
    simp only [hparameter] at hsource
    cases hsource
    exact .inl rfl
  | none =>
    simp only [hparameter] at hsource
    split at hsource
    · obtain ⟨p, v, -, hsource⟩ := Action.bind_ok_cases hsource
      cases hsource
      exact .inr ⟨rfl, _, rfl⟩
    · cases hsource
      exact .inl (parameter?_localSource _ _ _)

/-- A fetcher is never in the way, so the parameter that was asked for is what matters. -/
theorem parameter_not_mem_iff (h : (job.prepare path).perform w = (.ok d, w')) {names : List String}
    (hgit : "fetchgit" ∉ names) (hgitHub : "fetchFromGitHub" ∉ names) :
    (∀ name ∈ d.recipe.source.parameter?, name ∉ names) ↔ ∀ name ∈ job.configuration.sourceParameter, name ∉ names := by
  have hfetcher : ∀ host : Host, host.fetcher ∉ names := by
    intro host
    cases host with
    | generic url => exact hgit
    | gitHub owner repository => exact hgitHub
  rcases (parameter_of_prepare h).2 with hsource | ⟨hnone, s, hsource⟩
  · rw [hsource]
  · rw [hnone, hsource]
    simp [Source.parameter?, hfetcher]

/-- Let the recipe of a package be prepared.  Unless it is formatted, its file has the text of a function whose body
calls the builder with a recursive set, whose attributes have names from a fixed list.  No parameter is there twice just
if no input is called like one of the others by its first component, and the parameter that was asked for is not called
like one of the fixed ones.  Every name is bound by a parameter just if no input and no parameter that was asked for has
the name of an attribute of the recipe. -/
theorem unambiguous_iff (h : (job.prepare path).perform w = (.ok d, w')) :
    let c := job.configuration
    let r := d.recipe
    let own := attributeNames r.attributes
    (c.nixfmt = false →
      d.text = PackageSet.generatedBy c.commandLine ++ (job.notice.render ++ r.expression.print ++ "\n")) ∧
    r.expression = .function r.parameters (.call (.reference "buildRosPackage" "") (.set true "" r.attributes)) ∧
    own.Sublist Recipe.ownNames ∧
    (r.parameters.Nodup ↔
      (∀ input ∈ r.inputs.all,
        Recipe.firstComponent input ∉ ["lib", "buildRosPackage"] ++ r.source.parameter?.toList) ∧
      ∀ name ∈ c.sourceParameter, name ∉ ["lib", "buildRosPackage"]) ∧
    ((∀ occurrence ∈ r.expression.occurrences .empty, occurrence.2 = some .parameter) ↔
      (∀ input ∈ r.inputs.all, Recipe.firstComponent input ∉ own) ∧ ∀ name ∈ c.sourceParameter, name ∉ own) := by
  intro c r own
  have hparameter := (parameter_of_prepare h).1
  refine ⟨fun hplain => ?_, rfl, r.attributeNames_sublist, ?_, ?_⟩
  · have htext := (recipe_of_prepare h).2.2
    rw [Finishes, if_neg (ne_true_of_eq_false hplain)] at htext
    rw [htext, ← Recipe.render_eq_print]
    exact String.append_assoc
  · rw [Recipe.nodup_parameters_iff, hparameter, parameter_not_mem_iff h (by decide) (by decide)]
    rfl
  · rw [Recipe.bound_by_parameters_iff hparameter, parameter_not_mem_iff h
      (Recipe.not_mem_attributeNames (by decide)) (Recipe.not_mem_attributeNames (by decide))]

/-- A talker, and a listener with two dependencies of unfortunate names; the parameter for the source may be chosen. -/
def speech (sourceParameter : Option String) : Job Unit where
  configuration := { sources := [⟨"talker/package.xml"⟩, ⟨"listener/package.xml"⟩], sourceParameter }
  database := .nothing
  runner := .empty
  year := "2026"

def speechStart : World Unit where
  tools := ()
  files := {
    entries := ⟨[
      (["listener"], .directory),
      (["listener", "package.xml"], .file ("<package><name>listener</name><version>1</version>" ++
        "<run_depend>lib</run_depend><run_depend>version</run_depend></package>").toUTF8 false),
      (["talker"], .directory),
      (["talker", "package.xml"], .file ("<package><name>talker</name><version>1</version>" ++
        "<run_depend>std_msgs</run_depend></package>").toUTF8 false)]⟩
    home := [] }

/-- The recipe of the talker takes its source and its input as parameters, once each, and nothing hides them. -/
theorem talker_is_unambiguous :
    ∃ d w, ((speech (some "talkerSrc")).prepare ⟨"talker/package.xml"⟩).perform speechStart = (.ok d, w) ∧
      d.recipe.parameters = ["lib", "buildRosPackage", "talkerSrc", "std-msgs"] ∧ d.recipe.parameters.Nodup ∧
      ∀ occurrence ∈ d.recipe.expression.occurrences .empty, occurrence.2 = some .parameter := by
  have hprepared : (((speech (some "talkerSrc")).prepare ⟨"talker/package.xml"⟩).perform speechStart).1.toOption.map
      (fun d => (d.recipe.parameters, d.recipe.inputs.all.toList, d.recipe.source.parameter?)) =
        some (["lib", "buildRosPackage", "talkerSrc", "std-msgs"], ["std-msgs"], some "talkerSrc") := by
    decide +kernel
  rcases hperform : ((speech (some "talkerSrc")).prepare ⟨"talker/package.xml"⟩).perform speechStart with ⟨e | d, w⟩
  · rw [hperform] at hprepared
    cases hprepared
  · rw [hperform] at hprepared
    obtain ⟨hparameters, hrest⟩ := Prod.mk.inj (Option.some.inj hprepared)
    obtain ⟨hinputs, hsource⟩ := Prod.mk.inj hrest
    have hinput : ∀ input ∈ d.recipe.inputs.all, input = "std-msgs" := by
      intro input hmem
      rw [NameSet.mem_def, hinputs] at hmem
      exact List.mem_singleton.1 hmem
    obtain ⟨-, -, -, hnodup, hbound⟩ := unambiguous_iff hperform
    refine ⟨d, w, rfl, hparameters, hnodup.2 ⟨?_, ?_⟩, hbound.2 ⟨?_, ?_⟩⟩
    · intro input hmem
      rw [hinput input hmem, hsource]
      decide +kernel
    · rintro name ⟨⟩
      decide
    · intro input hmem
      rw [hinput input hmem]
      exact Recipe.not_mem_attributeNames (by decide +kernel)
    · rintro name ⟨⟩
      exact Recipe.not_mem_attributeNames (by decide)

/-- The recipe of the listener has a parameter twice, and takes its own version for an input.  With the parameter `src`,
the source of the talker is itself. -/
theorem names_collide :
    (((speech none).prepare ⟨"listener/package.xml"⟩).perform speechStart).1.toOption.map
      (fun d => (d.recipe.parameters, d.recipe.expression.occurrences .empty)) =
        some (["lib", "buildRosPackage", "lib", "version"], [("buildRosPackage", some .parameter),
          ("lib", some .parameter), ("version", some .attribute), ("lib", some .parameter)]) ∧
    (((speech (some "src")).prepare ⟨"talker/package.xml"⟩).perform speechStart).1.toOption.map
      (fun d => (d.recipe.parameters, d.recipe.expression.occurrences .empty)) =
        some (["lib", "buildRosPackage", "src", "std-msgs"], [("buildRosPackage", some .parameter),
          ("src", some .attribute), ("std-msgs", some .parameter), ("lib", some .parameter)]) := by
  decide +kernel

end Job

end RosRecipes
