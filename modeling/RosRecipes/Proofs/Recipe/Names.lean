import RosRecipes.Proofs.Nix.Expression
import RosRecipes.Recipe

/-!
# The names of a recipe

A recipe is written as an expression: a function whose body calls the builder with a recursive set
(`Recipe.expression`, `render_eq_print`).  The names that occur in it are known (`occurrences_body`).

* The parameters are the names that occur in the body (`header_binds_body`).
-/

namespace RosRecipes

open Nix (Expression)
open Nix.Expression (printAttributes printAttributes_append attributeNames occurrences attributeOccurrences
  attributeOccurrences_append itemOccurrences_eq printItems_eq)

/-! ### The expression of a recipe -/

/-- The attributes of a fetch. -/
def GitSource.attributes (s : GitSource) : List (String × String × Expression) :=
  (match s.host with
    | .gitHub owner repository => [("    ", "owner", .text owner), ("    ", "repo", .text repository)]
    | .generic url => [("    ", "url", .text url)]) ++
  [("    ", "rev", .text s.revision), ("    ", "sha256", .text s.sha256)] ++
  (match s.sparseCheckout with
    | some path =>
      [("    ", "sparseCheckout", .list "" "" [.text path]), ("    ", "nonConeMode", .constant "true")]
    | none => [])

def Source.expression : Source → Expression
  | .parameter name => .reference name ""
  | .directory path => .constant path
  | .git s => .call (.reference s.host.fetcher "") (.set false "  " s.attributes)

def License.expression : License → Expression
  | .known name => .reference name ""
  | .custom name => .text (Nix.escape name)

namespace Recipe

/-- An input is its first component, and what is selected from it. -/
def inputExpression (input : String) : Expression :=
  .reference (firstComponent input) (.ofList (input.toList.dropWhile (· ≠ '.')))

/-- The attribute of a category, unless it is empty. -/
def inputAttribute (name : String) (inputs : NameSet) : List (String × String × Expression) :=
  if inputs.isEmpty then [] else [("  ", name, .list " " " " (inputs.toList.map inputExpression))]

/-- The attributes that not every recipe has. -/
def optionalAttributes (r : Recipe) : List (String × String × Expression) :=
  (if r.options.patches.isEmpty then []
   else [("  ", "patches", .list "\n    " "\n  " (r.options.patches.map .constant))]) ++
  (r.options.sourceRoot.map fun root => ("  ", "sourceRoot", .text root)).toList ++
  (r.options.doCheck.map fun check => ("  ", "doCheck", .constant (if check then "true" else "false"))).toList ++
  inputAttribute "buildInputs" r.inputs.build ++
  inputAttribute "checkInputs" r.inputs.check ++
  inputAttribute "propagatedBuildInputs" r.inputs.propagated ++
  inputAttribute "nativeBuildInputs" r.inputs.native

/-- The attributes that the builder is called with. -/
def attributes (r : Recipe) : List (String × String × Expression) :=
  [("  ", "pname", .text ("ros-" ++ r.distribution ++ "-" ++ r.name)),
   ("  ", "version", .text r.version),
   ("\n  ", "src", r.source.expression),
   ("\n  ", "buildType", .text r.buildType)] ++
  r.optionalAttributes ++
  [("\n  ", "meta", .set false "  "
    [("    ", "description", .text (Nix.escape r.description)),
     ("    ", "license", .within (.reference "lib" ".licenses")
        (.list " " " " (r.licenses.map License.expression)))])]

def body (r : Recipe) : Expression := .call (.reference "buildRosPackage" "") (.set true "" r.attributes)

def expression (r : Recipe) : Expression := .function r.parameters r.body

/-! ### How it is written -/

theorem printAttributes_text (lead name body : String) (attributes : List (String × String × Expression)) :
    printAttributes ((lead, name, .text body) :: attributes) =
      lead ++ textAttribute name body ++ "\n" ++ printAttributes attributes := by
  rw [← String.toList_inj]
  simp [printAttributes, Expression.print, textAttribute]

theorem print_source (source : Source) : source.expression.print = renderSource source := by
  cases source with
  | parameter name => simp [Source.expression, Expression.print, renderSource]
  | directory path => simp [Source.expression, Expression.print, renderSource]
  | git s =>
    obtain ⟨host, revision, sha256, subdirectory, sparseCheckout⟩ := s
    rw [← String.toList_inj]
    cases host <;> cases sparseCheckout <;>
      simp [Source.expression, GitSource.attributes, renderSource, fetchAttributes, Expression.print,
        Expression.printItems, printAttributes, textAttribute, Nix.quoted]

theorem print_license (license : License) : license.expression.print = license.render := by
  cases license <;> simp [License.expression, License.render, Expression.print]

theorem print_input (input : String) : (inputExpression input).print = input := by
  rw [inputExpression, Expression.print, firstComponent, ← String.ofList_append, List.takeWhile_append_dropWhile,
    String.ofList_toList]

/-- A list with blanks between its items. -/
theorem print_list {α : Type} (f : α → Expression) (items : List α) :
    (Expression.list " " " " (items.map f)).print = Nix.list (items.map fun x => (f x).print) := by
  rw [Expression.print, printItems_eq, Nix.list, List.map_map, List.map_map, String.append_assoc]
  rfl

theorem print_inputAttribute (name : String) (inputs : NameSet) :
    printAttributes (inputAttribute name inputs) = String.join ((inputList name inputs).map (· ++ "\n")) := by
  unfold inputAttribute inputList
  split
  · rfl
  · simp [printAttributes, print_list, print_input, String.append_assoc]

/-- What stands before each item of a list stands between the items. -/
private theorem join_map_append (lead : String) {items : List String} (h : items ≠ []) :
    String.join (items.map (lead ++ ·)) = lead ++ String.intercalate lead items := by
  induction items with
  | nil => contradiction
  | cons item items ih =>
    rw [List.map_cons, String.join_cons]
    cases items with
    | nil => simp
    | cons next items =>
      have hfirst : lead.intercalate (item :: next :: items) = item ++ lead ++ lead.intercalate (next :: items) :=
        String.intercalate_cons_of_ne_nil (List.cons_ne_nil _ _)
      rw [ih (List.cons_ne_nil _ _), hfirst]
      simp only [String.append_assoc]

theorem print_patches {patches : List String} (h : patches ≠ []) :
    (Expression.list "\n    " "\n  " (patches.map .constant)).print =
      "[\n    " ++ String.intercalate "\n    " patches ++ "\n  ]" := by
  rw [Expression.print, printItems_eq, List.map_map]
  show "[" ++ String.join (patches.map ("\n    " ++ ·)) ++ _ ++ _ = _
  rw [join_map_append _ h, ← String.toList_inj]
  simp

theorem print_optionalAttributes (r : Recipe) :
    printAttributes r.optionalAttributes = String.join (r.optionalLines.map (· ++ "\n")) := by
  have hpatches : printAttributes (if r.options.patches.isEmpty then []
        else [("  ", "patches", .list "\n    " "\n  " (r.options.patches.map .constant))]) =
      String.join ((if r.options.patches.isEmpty then []
        else ["  patches = [\n    " ++ String.intercalate "\n    " r.options.patches ++ "\n  ];"]).map
          (· ++ "\n")) := by
    split
    · rfl
    · next h =>
      rw [← String.toList_inj]
      simp [printAttributes, print_patches (by simpa using h)]
  have hroot : printAttributes (r.options.sourceRoot.map fun root => ("  ", "sourceRoot", .text root)).toList =
      String.join ((r.options.sourceRoot.map fun root => "  " ++ textAttribute "sourceRoot" root).toList.map
        (· ++ "\n")) := by
    rw [← String.toList_inj]
    cases r.options.sourceRoot <;> simp [printAttributes_text, printAttributes]
  have hcheck : printAttributes (r.options.doCheck.map fun check =>
        ("  ", "doCheck", .constant (if check then "true" else "false"))).toList =
      String.join ((r.options.doCheck.map fun check =>
        "  doCheck = " ++ (if check then "true" else "false") ++ ";").toList.map (· ++ "\n")) := by
    rw [← String.toList_inj]
    cases r.options.doCheck <;> simp [printAttributes, Expression.print]
  simp only [optionalAttributes, optionalLines, printAttributes_append, List.map_append,
    String.join_append, print_inputAttribute, hpatches, hroot, hcheck]

private theorem print_source_attribute (source : Source) (attributes : List (String × String × Expression)) :
    printAttributes (("\n  ", "src", source.expression) :: attributes) =
      "\n  src = " ++ renderSource source ++ ";\n" ++ printAttributes attributes := by
  rw [printAttributes, print_source, ← String.toList_inj]
  simp

private theorem print_meta_attribute (r : Recipe) :
    printAttributes [("\n  ", "meta", .set false "  "
      [("    ", "description", .text (Nix.escape r.description)),
       ("    ", "license", .within (.reference "lib" ".licenses")
          (.list " " " " (r.licenses.map License.expression)))])] =
      "\n  meta = \x7b\n    " ++ textAttribute "description" (Nix.escape r.description) ++
        "\n    license = with lib.licenses; " ++ Nix.list (r.licenses.map License.render) ++ ";\n  \x7d;\n" := by
  have hlicenses : (Expression.within (.reference "lib" ".licenses")
      (.list " " " " (r.licenses.map License.expression))).print =
        "with lib.licenses; " ++ Nix.list (r.licenses.map License.render) := by
    rw [Expression.print, print_list]
    simp only [print_license]
    rfl
  rw [printAttributes, Expression.print, printAttributes_text, ← String.toList_inj]
  simp [printAttributes, hlicenses]

/-- A recipe is its notice and its expression. -/
theorem render_eq_print (r : Recipe) (notice : Notice) :
    r.render notice = notice.render ++ r.expression.print ++ "\n" := by
  unfold render lines expression body attributes
  simp only [Expression.print, List.cons_append, List.nil_append, printAttributes_text, print_source_attribute,
    printAttributes_append, print_optionalAttributes, print_meta_attribute]
  rw [← String.toList_inj]
  simp

/-! ### The names that occur in it -/

/-- The names that occur among the attributes. -/
def mentioned (r : Recipe) : List String :=
  r.source.parameter?.toList ++
  (r.inputs.build.toList ++ r.inputs.check.toList ++ r.inputs.propagated.toList ++
    r.inputs.native.toList).map firstComponent ++
  ["lib"]

theorem mem_mentioned {r : Recipe} {name : String} :
    name ∈ r.mentioned ↔
      name ∈ r.source.parameter? ∨ (∃ input ∈ r.inputs.all, firstComponent input = name) ∨ name = "lib" := by
  have hinput : ∀ input, input ∈ r.inputs.build.toList ++ r.inputs.check.toList ++ r.inputs.propagated.toList ++
      r.inputs.native.toList ↔ input ∈ r.inputs.all := by
    intro input
    simp only [List.mem_append, ← NameSet.mem_def, Categories.mem_all]
    grind
  simp only [mentioned, List.mem_append, List.mem_map, Option.mem_toList, Option.mem_def,
    List.mem_singleton, or_assoc, ← hinput]

open Nix (Scope)

theorem occurrences_gitSource (g : GitSource) (s : Scope) : attributeOccurrences s g.attributes = [] := by
  obtain ⟨host, revision, sha256, subdirectory, sparseCheckout⟩ := g
  cases host <;> cases sparseCheckout <;> rfl

theorem occurrences_source (source : Source) (s : Scope) :
    source.expression.occurrences s = source.parameter?.toList.map fun name => (name, s name) := by
  cases source with
  | parameter name => rfl
  | directory path => rfl
  | git g =>
    simp [Source.expression, Source.parameter?, occurrences, occurrences_gitSource]

theorem occurrences_inputAttribute (name : String) (inputs : NameSet) (s : Scope) :
    attributeOccurrences s (inputAttribute name inputs) =
      (inputs.toList.map firstComponent).map fun name => (name, s name) := by
  have hinput : ∀ input, (inputExpression input).occurrences s = [(firstComponent input, s (firstComponent input))] :=
    fun _ => rfl
  unfold inputAttribute
  split
  · next h =>
    rw [List.isEmpty_iff.1 h]
    rfl
  · simp only [attributeOccurrences, occurrences, itemOccurrences_eq, List.flatMap_map, hinput,
      ← List.map_eq_flatMap, List.map_map, Function.comp_def, List.append_nil]

/-- Patches, the root and the switch for checks mention no name. -/
theorem occurrences_optionalAttributes (r : Recipe) (s : Scope) :
    attributeOccurrences s r.optionalAttributes =
      attributeOccurrences s (inputAttribute "buildInputs" r.inputs.build) ++
      attributeOccurrences s (inputAttribute "checkInputs" r.inputs.check) ++
      attributeOccurrences s (inputAttribute "propagatedBuildInputs" r.inputs.propagated) ++
      attributeOccurrences s (inputAttribute "nativeBuildInputs" r.inputs.native) := by
  have hpatches : attributeOccurrences s (if r.options.patches.isEmpty then []
      else [("  ", "patches", .list "\n    " "\n  " (r.options.patches.map .constant))]) = [] := by
    split
    · rfl
    · simp [attributeOccurrences, occurrences, itemOccurrences_eq]
  have hroot : attributeOccurrences s
      (r.options.sourceRoot.map fun root => ("  ", "sourceRoot", .text root)).toList = [] := by
    cases r.options.sourceRoot <;> rfl
  have hcheck : attributeOccurrences s (r.options.doCheck.map fun check =>
      ("  ", "doCheck", .constant (if check then "true" else "false"))).toList = [] := by
    cases r.options.doCheck <;> rfl
  simp only [optionalAttributes, attributeOccurrences_append, hpatches, hroot, hcheck, List.nil_append]

/-- The names that occur in the body: those among the attributes may be bound by an attribute. -/
theorem occurrences_body (r : Recipe) (s : Scope) :
    r.body.occurrences s =
      ("buildRosPackage", s "buildRosPackage") ::
        r.mentioned.map fun name => (name, s.bind .attribute (attributeNames r.attributes) name) := by
  have hset : (Expression.set true "" r.attributes).occurrences s =
      attributeOccurrences (s.bind .attribute (attributeNames r.attributes)) r.attributes := rfl
  have hcall : r.body.occurrences s =
      ("buildRosPackage", s "buildRosPackage") :: (Expression.set true "" r.attributes).occurrences s := rfl
  rw [hcall, hset]
  -- which names occur does not depend on the scope inside the set
  generalize s.bind .attribute (attributeNames r.attributes) = inner
  have hattributes : attributeOccurrences inner r.attributes =
      r.source.expression.occurrences inner ++ attributeOccurrences inner r.optionalAttributes ++
        [("lib", inner "lib")] := by
    simp [attributes, attributeOccurrences_append, occurrences, attributeOccurrences]
  rw [hattributes, occurrences_optionalAttributes, occurrences_source]
  simp only [occurrences_inputAttribute, mentioned, List.map_append, List.map_cons, List.map_nil, List.append_assoc]

theorem mem_names_body {r : Recipe} {name : String} :
    name ∈ r.body.names ↔ name = "buildRosPackage" ∨ name ∈ r.mentioned := by
  simp [Expression.names, occurrences_body]

theorem mem_parameters {r : Recipe} {name : String} :
    name ∈ r.parameters ↔ name = "lib" ∨ name = "buildRosPackage" ∨ name ∈ r.options.sourceParameter ∨
      ∃ input ∈ r.inputs.all, firstComponent input = name := by
  simp only [parameters, List.mem_append, List.mem_cons, List.not_mem_nil, or_false, Option.mem_toList, Option.mem_def,
    ← NameSet.mem_def, NameSet.mem_image, or_assoc]

theorem names_source (source : Source) : source.expression.names = source.parameter?.toList := by
  simp [Expression.names, occurrences_source, Function.comp_def]

/-- With the options that its source brings along, the parameters of a recipe are the names in its body. -/
theorem mem_parameters_iff_mem_names {r : Recipe} (h : r.options.sourceParameter = r.source.parameter?)
    {name : String} :
    name ∈ r.parameters ↔ name ∈ r.body.names := by
  rw [mem_parameters, mem_names_body, mem_mentioned, h]
  constructor
  · rintro (hlib | hbuilder | hsource | hinput)
    · exact .inr (.inr (.inr hlib))
    · exact .inl hbuilder
    · exact .inr (.inl hsource)
    · exact .inr (.inr (.inl hinput))
  · rintro (hbuilder | hsource | hinput | hlib)
    · exact .inr (.inl hbuilder)
    · exact .inr (.inr (.inl hsource))
    · exact .inr (.inr (.inr hinput))
    · exact .inl hlib

/-- Every name in a recipe with the options of its source is bound: by the header, if not by an attribute. -/
theorem isSome_of_mem_occurrences {r : Recipe} (h : r.options.sourceParameter = r.source.parameter?)
    {occurrence : String × Option Nix.Binder} (hmem : occurrence ∈ r.expression.occurrences .empty) :
    occurrence.2.isSome := by
  have hbody : r.expression.occurrences .empty = r.body.occurrences (Scope.empty.bind .parameter r.parameters) := rfl
  rw [hbody, occurrences_body] at hmem
  rcases List.mem_cons.1 hmem with rfl | hmem
  · simp [Scope.bind, parameters]
  · obtain ⟨name, hname, rfl⟩ := List.mem_map.1 hmem
    have hparameter : name ∈ r.parameters :=
      (mem_parameters_iff_mem_names h).2 (mem_names_body.2 (.inr hname))
    refine Scope.isSome_bind ?_
    rw [Scope.bind_of_mem hparameter]
    rfl

/-- The root that a source brings along has an interpolation, which reads the attribute of the source; the recursive set
binds it. -/
theorem sourceRoot_reads_source (r : Recipe) {root : String} (h : r.source.sourceRoot = some root) (s : Scope) :
    (∃ subdirectory, root = "$\x7bsrc.name\x7d/" ++ subdirectory) ∧
      s.bind .attribute (attributeNames r.attributes) "src" = some .attribute := by
  constructor
  · cases hsource : r.source with
    | parameter name =>
      rw [hsource] at h
      cases h
    | directory path =>
      rw [hsource] at h
      cases h
    | git source =>
      rw [hsource] at h
      obtain ⟨subdirectory, -, rfl⟩ := Option.map_eq_some_iff.1 h
      exact ⟨subdirectory, rfl⟩
  · refine Scope.bind_of_mem ?_
    simp [attributeNames, attributes]

/-- With the options that its source brings along, and any root, switch for checks and patches, a recipe binds in its
header the names that its body mentions, and no others; more inputs add their first components.  Names in the
interpolations of a text do not count as mentioned.  The only interpolation that is not part of a given text reads the
attribute of the source (`sourceRoot_reads_source`). -/
theorem header_binds_body (r : Recipe) (sourceRoot : Option String) (doCheck : Option Bool) (patches : List String)
    (extra : ExtraInputs) (notice : Notice) :
    let r := { r with options := { Options.ofSource r.source with sourceRoot, doCheck, patches } }
    r.render notice = notice.render ++ r.expression.print ++ "\n" ∧
    r.expression = .function r.parameters r.body ∧
    (∀ name, name ∈ r.parameters ↔ name = "lib" ∨ name = "buildRosPackage" ∨
      (∃ input ∈ r.inputs.all, firstComponent input = name) ∨ name ∈ r.source.expression.names) ∧
    (∀ name, name ∈ r.parameters ↔ name ∈ r.body.names) ∧
    (∀ occurrence ∈ r.expression.occurrences .empty, occurrence.2.isSome) ∧
    ∀ name, name ∈ { r with inputs := r.inputs.extend extra }.parameters ↔
      name ∈ r.parameters ∨ ∃ input ∈ extra.all, firstComponent input = name := by
  intro r
  have hparameter : r.options.sourceParameter = r.source.parameter? := rfl
  have hnames : ∀ name, name ∈ r.parameters ↔ name ∈ r.body.names :=
    fun name => mem_parameters_iff_mem_names hparameter
  refine ⟨r.render_eq_print notice, rfl, fun name => ?_, hnames, ?_, fun name => ?_⟩
  · rw [mem_parameters, hparameter, names_source, Option.mem_toList, Option.mem_def, or_comm (b := ∃ _, _)]
  · exact fun occurrence hmem => isSome_of_mem_occurrences hparameter hmem
  · simp only [mem_parameters, Categories.mem_all_extend, or_and_right, exists_or, or_assoc]

end Recipe

end RosRecipes
