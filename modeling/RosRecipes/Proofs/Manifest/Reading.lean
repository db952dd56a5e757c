import RosRecipes.Proofs.Manifest.Tree

/-!
# Manifests are read off their trees

Following the events of a well-nested document gives the manifest that its trees describe, and nothing else is
accepted (`ofEvents_eq_ok_iff`).

The open elements are a stack.  The argument goes by induction on trees, for any stack below them: walking through a
tree leaves the stack as it was, up to the text of the innermost element, and changes the draft by `Node.visit`, which
needs the names around the tree only (`follow_events`).  Then `visit` does nothing but for the children of the root
and those of its exports (`visit_idle`), and over the children of the root it collects (`visitAll_root`).
-/

namespace RosRecipes.Manifest

open Xml (Node Tag Element elements named)

variable {source : List Char} {draft : Draft} {path : List String} {format : Nat}

/-! ### Reading trees -/

/-- An element that has just been opened. -/
def opened (tag : Tag) (start : Nat) : Frame := { name := tag.name, condition := tag.value? "condition", start }

/-- An element as it closes. -/
def frameOf (e : Element) : Frame where
  name := e.tag.name
  condition := e.tag.value? "condition"
  text := e.children.flatMap Node.ownText
  start := (e.span.map Prod.fst).getD 0

mutual

/-- What a part below the given names adds to a draft. -/
def visit (source : List Char) (path : List String) (draft : Draft) : Node → Except Fault Draft
  | .element tag start children stop =>
    (visitAll source (path ++ [tag.name]) draft children).bind fun draft =>
      draft.close path (frameOf ⟨tag, children, some (start, stop)⟩) (innerMarkup source start stop)
  | .void tag _ => draft.close path (frameOf ⟨tag, [], none⟩) ""
  | .text _ => .ok draft
  | .literal _ => .ok draft

def visitAll (source : List Char) (path : List String) (draft : Draft) : List Node → Except Fault Draft
  | [] => .ok draft
  | node :: nodes => (visit source path draft node).bind fun draft => visitAll source path draft nodes

end

/-- However an element is closed, what is inside comes first. -/
theorem visit_element {node : Node} {e : Element} (h : node.element? = some e) :
    visit source path draft node =
      (visitAll source (path ++ [e.tag.name]) draft e.children).bind fun draft =>
        draft.close path (frameOf e) (markupOf source e) := by
  cases node with
  | element tag start children stop =>
    cases h
    rw [visit]
    rfl
  | void tag stop =>
    cases h
    rw [visit, visitAll]
    rfl
  | text raw => cases h
  | literal content => cases h

theorem visit_other {node : Node} (h : node.element? = none) : visit source path draft node = .ok draft := by
  cases node with
  | element tag start children stop => cases h
  | void tag stop => cases h
  | text raw => rw [visit]
  | literal content => rw [visit]

/-! ### From events to trees -/

private theorem attribute?_of_wellFormed {tag : Tag} (h : tag.WellFormed) (name : String) :
    attribute? tag.attributes name = .ok (tag.value? name) := by
  unfold attribute? Tag.value?
  cases hfind : tag.attributes.pairs.find? (·.1 = name) with
  | none =>
    rw [h.1]
    rfl
  | some pair =>
    obtain ⟨key, raw⟩ := pair
    obtain ⟨value, hvalue⟩ := Option.isSome_iff_exists.1 (h.2 _ (List.mem_of_find?_eq_some hfind))
    simp only [Option.map_some]
    rw [hvalue]
    rfl

section

variable {tag : Tag} {frame : Frame} {frames : List Frame} {seen : Bool} {stop : Nat}

/-- Below the root an element is opened without a look at the draft. -/
private theorem enter_inside (h : tag.WellFormed) :
    Progress.enter ⟨draft, frame :: frames, seen⟩ tag stop =
      .ok (⟨draft, frame :: frames, seen⟩, opened tag stop) := by
  unfold Progress.enter
  simp only [List.isEmpty_cons, attribute?_of_wellFormed h]
  rfl

private theorem follow_opening (h : tag.WellFormed) :
    Progress.follow source ⟨draft, frame :: frames, seen⟩ (.opening tag stop) =
      .ok ⟨draft, opened tag stop :: frame :: frames, seen⟩ := by
  rw [Progress.follow, enter_inside h]
  rfl

private theorem follow_selfClosing (h : tag.WellFormed) :
    Progress.follow source ⟨draft, frame :: frames, seen⟩ (.selfClosing tag stop) =
      (visit source (Progress.path ⟨draft, frame :: frames, seen⟩) draft (.void tag stop)).map fun draft =>
        ⟨draft, frame :: frames, seen⟩ := by
  rw [Progress.follow, enter_inside h, visit]
  -- The frame of the element differs in its start only, and closing does not look at that.
  show (draft.close _ (frameOf ⟨tag, [], none⟩) "").bind _ = _
  cases draft.close (Progress.path ⟨draft, frame :: frames, seen⟩) (frameOf ⟨tag, [], none⟩) "" with
  | error fault => rfl
  | ok closed => rfl

private theorem follow_closing :
    Progress.follow source ⟨draft, frame :: frames, seen⟩ (.closing stop) =
      (draft.close (Progress.path ⟨draft, frames, seen⟩) frame (innerMarkup source frame.start stop)).map fun draft =>
        ⟨draft, frames, seen⟩ := by
  unfold Progress.follow
  dsimp only
  cases draft.close (Progress.path ⟨draft, frames, seen⟩) frame (innerMarkup source frame.start stop) with
  | error fault => rfl
  | ok closed => rfl

end

mutual

/-- Walking through a part leaves the open elements, up to the text of the innermost one. -/
theorem follow_events (node : Node) (h : node.WellFormed) (draft : Draft) (frame : Frame) (frames : List Frame)
    (seen : Bool) :
    node.events.foldlM (Progress.follow source) ⟨draft, frame :: frames, seen⟩ =
      (visit source (Progress.path ⟨draft, frame :: frames, seen⟩) draft node).map fun draft =>
        ⟨draft, { frame with text := frame.text ++ node.ownText } :: frames, seen⟩ := by
  match node with
  | .text raw =>
    obtain ⟨text, htext⟩ := Option.isSome_iff_exists.1 h
    simp only [Node.events, List.foldlM_cons, List.foldlM_nil, Progress.follow, htext, visit, Node.ownText]
    rfl
  | .literal content =>
    simp only [Node.events, List.foldlM_cons, List.foldlM_nil, Progress.follow, visit]
    rfl
  | .void tag stop =>
    rw [Node.events, List.foldlM_cons, follow_selfClosing h, Node.ownText, List.append_nil]
    exact bind_pure _
  | .element tag start children stop =>
    have hchildren := follow_eventsAll children h.2 draft (opened tag start) (frame :: frames) seen
    have hpath : Progress.path ⟨draft, opened tag start :: frame :: frames, seen⟩ =
        Progress.path ⟨draft, frame :: frames, seen⟩ ++ [tag.name] := List.reverse_cons
    rw [hpath] at hchildren
    rw [Node.events, List.foldlM_cons, follow_opening h.1, visit, Node.ownText, List.append_nil]
    show (Xml.events children ++ [Xml.Event.closing stop]).foldlM (Progress.follow source) _ = _
    rw [List.foldlM_append, hchildren]
    cases visitAll source (Progress.path ⟨draft, frame :: frames, seen⟩ ++ [tag.name]) draft children with
    | error fault => rfl
    | ok visited =>
      show [Xml.Event.closing stop].foldlM (Progress.follow source) _ = _
      rw [List.foldlM_cons, follow_closing]
      exact bind_pure _

theorem follow_eventsAll (nodes : List Node) (h : Xml.WellFormed nodes) (draft : Draft) (frame : Frame)
    (frames : List Frame) (seen : Bool) :
    (Xml.events nodes).foldlM (Progress.follow source) ⟨draft, frame :: frames, seen⟩ =
      (visitAll source (Progress.path ⟨draft, frame :: frames, seen⟩) draft nodes).map fun draft =>
        ⟨draft, { frame with text := frame.text ++ nodes.flatMap Node.ownText } :: frames, seen⟩ := by
  match nodes with
  | [] =>
    rw [Xml.events, List.foldlM_nil, visitAll, List.flatMap_nil, List.append_nil]
    rfl
  | node :: nodes =>
    rw [Xml.events, List.foldlM_append, follow_events node h.1 draft frame frames seen, visitAll]
    cases visit source (Progress.path ⟨draft, frame :: frames, seen⟩) draft node with
    | error fault => rfl
    | ok visited =>
      have hrest := follow_eventsAll nodes h.2 visited { frame with text := frame.text ++ node.ownText } frames seen
      rw [List.flatMap_cons, ← List.append_assoc]
      exact hrest

end

/-! ### What counts -/

private theorem close_idle {parents : List String} (hroot : parents ≠ ["package"])
    (hexport : parents ≠ ["package", "export"]) (frame : Frame) (description : String) :
    draft.close parents frame description = .ok draft := by
  unfold Draft.close
  rw [if_neg fun h => hexport h.1, if_neg hroot]

mutual

/-- Deep inside, and outside of the exports, nothing counts. -/
theorem visit_idle (path : List String) (node : Node) (hdeep : 2 ≤ path.length)
    (hexport : path ≠ ["package", "export"]) :
    visit source path draft node = .ok draft := by
  have hroot : path ≠ ["package"] := by
    rintro rfl
    simp at hdeep
  match node with
  | .text raw => rw [visit]
  | .literal content => rw [visit]
  | .void tag stop => rw [visit, close_idle hroot hexport]
  | .element tag start children stop =>
    have hlonger : (path ++ [tag.name]).length = path.length + 1 := List.length_append
    have hchildren : visitAll source (path ++ [tag.name]) draft children = .ok draft := by
      refine visitAll_idle _ children (by omega) ?_
      intro heq
      rw [heq, List.length_cons, List.length_singleton] at hlonger
      omega
    rw [visit, hchildren]
    exact close_idle hroot hexport _ _

theorem visitAll_idle (path : List String) (nodes : List Node) (hdeep : 2 ≤ path.length)
    (hexport : path ≠ ["package", "export"]) :
    visitAll source path draft nodes = .ok draft := by
  match nodes with
  | [] => rw [visitAll]
  | node :: nodes =>
    rw [visitAll, visit_idle path node hdeep hexport]
    exact visitAll_idle path nodes hdeep hexport

end

/-! ### Conditions -/

/-- A condition is read if it is valid. -/
private theorem condition?_eq_ok_iff {e : Element} {c : Option Condition} :
    condition? (e.tag.value? "condition") = .ok c ↔ ValidCondition e ∧ c = conditionOf e := by
  unfold condition? ValidCondition conditionOf
  cases e.tag.value? "condition" with
  | none =>
    refine ⟨fun h => ⟨nofun, (Except.ok.inj h).symm⟩, fun h => ?_⟩
    rw [h.2]
    rfl
  | some raw =>
    simp only [Option.map_some, Option.bind_some, Option.some.injEq, forall_eq']
    by_cases hblank : Text.trimmed raw = ""
    · rw [hblank]
      refine ⟨fun h => ⟨.inl rfl, (Except.ok.inj h).symm⟩, fun h => ?_⟩
      rw [h.2]
      rfl
    · have hempty : (Text.trimmed raw).isEmpty = false := by simpa using hblank
      rw [hempty, if_neg hblank]
      cases hparse : Condition.parse (Text.trimmed raw) with
      | error fault =>
        refine ⟨nofun, fun h => ?_⟩
        obtain ⟨hno | ⟨c, hc⟩, -⟩ := h
        · exact absurd hno hblank
        · cases hc
      | ok parsed =>
        refine ⟨fun h => ⟨.inr ⟨parsed, rfl⟩, (Except.ok.inj h).symm⟩, fun h => ?_⟩
        rw [h.2]
        rfl

instance (e : Element) : Decidable (ValidCondition e) :=
  decidable_of_iff ((condition? (e.tag.value? "condition")).isOk = true) <| by
    cases hcondition : condition? (e.tag.value? "condition") with
    | ok c => exact iff_of_true rfl (condition?_eq_ok_iff.1 hcondition).1
    | error fault =>
      refine iff_of_false nofun fun h => ?_
      rw [condition?_eq_ok_iff.2 ⟨h, rfl⟩] at hcondition
      cases hcondition

/-! ### The children of the root -/

/-- A draft with what some children of the root say. -/
def Draft.collect (source : List Char) (draft : Draft) (es : List Element) : Draft where
  format := draft.format
  name := ((named "name" es).getLast?.map (·.text)).or draft.name
  version := ((named "version" es).getLast?.map (·.text)).or draft.version
  description := ((named "description" es).getLast?.map (markupOf source)).getD draft.description
  licenses := draft.licenses ++ (named "license" es).map (·.text)
  buildTypes := draft.buildTypes ++ (exportedTypes es).map fun e => ⟨e.text, conditionOf e⟩
  dependencies := draft.dependencies ++ es.flatMap (declarations draft.format)

/-- What some children of the root say can be read. -/
structure Acceptable (format : Nat) (es : List Element) : Prop where
  dependencies : ∀ e ∈ es, Role.ofTag? format e.tag.name ≠ none → e.text ≠ "" ∧ ValidCondition e
  buildTypes : ∀ e ∈ exportedTypes es, ValidCondition e

theorem Draft.collect_nil (draft : Draft) : draft.collect source [] = draft := by
  simp [collect, named, exportedTypes]

theorem Draft.collect_append (draft : Draft) (es es' : List Element) :
    (draft.collect source es).collect source es' = draft.collect source (es ++ es') := by
  simp only [collect, named, exportedTypes, List.filter_append, List.getLast?_append, List.map_append,
    List.flatMap_append, Option.map_or, Option.or_assoc, Option.getD_or, List.append_assoc]

theorem acceptable_append {es es' : List Element} :
    Acceptable format (es ++ es') ↔ Acceptable format es ∧ Acceptable format es' := by
  have htypes : exportedTypes (es ++ es') = exportedTypes es ++ exportedTypes es' := by
    simp only [exportedTypes, named, List.filter_append, List.flatMap_append]
  constructor
  · rintro ⟨hdependencies, hbuildTypes⟩
    rw [htypes] at hbuildTypes
    exact ⟨⟨fun e he => hdependencies e (List.mem_append_left _ he), fun e he =>
        hbuildTypes e (List.mem_append_left _ he)⟩,
      ⟨fun e he => hdependencies e (List.mem_append_right _ he), fun e he =>
        hbuildTypes e (List.mem_append_right _ he)⟩⟩
  · rintro ⟨h, h'⟩
    refine ⟨fun e he => ?_, fun e he => ?_⟩
    · exact (List.mem_append.1 he).elim (h.dependencies e) (h'.dependencies e)
    · rw [htypes] at he
      exact (List.mem_append.1 he).elim (h.buildTypes e) (h'.buildTypes e)

/-- An element of another name than those of dependencies and exports is always acceptable. -/
private theorem acceptable_other {e : Element} (hexport : e.tag.name ≠ "export")
    (hroles : Role.ofTag? format e.tag.name = none) : Acceptable format [e] := by
  refine ⟨fun e' he' hno => absurd ?_ hno, fun e' he' => ?_⟩
  · rw [List.mem_singleton.1 he', hroles]
  · simp [exportedTypes, named, hexport] at he'

private theorem acceptable_dependency {e : Element} (hexport : e.tag.name ≠ "export")
    (hroles : Role.ofTag? format e.tag.name ≠ none) : Acceptable format [e] ↔ e.text ≠ "" ∧ ValidCondition e := by
  refine ⟨fun h => h.dependencies e (List.mem_singleton_self e) hroles, fun h => ⟨?_, ?_⟩⟩
  · intro e' he' _
    rw [List.mem_singleton.1 he']
    exact h
  · simp [exportedTypes, named, hexport]

/-- What one child of the root adds, if it is no export. -/
private theorem collect_child {e : Element} (hexport : e.tag.name ≠ "export") :
    draft.collect source [e] = {
      format := draft.format
      name := if e.tag.name = "name" then some e.text else draft.name
      version := if e.tag.name = "version" then some e.text else draft.version
      description := if e.tag.name = "description" then markupOf source e else draft.description
      licenses := draft.licenses ++ if e.tag.name = "license" then [e.text] else []
      buildTypes := draft.buildTypes
      dependencies := draft.dependencies ++ declarations draft.format e } := by
  have hone : ∀ name, named name [e] = if e.tag.name = name then [e] else [] := by
    intro name
    by_cases hname : e.tag.name = name <;> simp [named, hname]
  have hlast : ∀ (c : Prop) [Decidable c], (if c then [e] else []).getLast? = if c then some e else none := by
    intro c _
    split <;> rfl
  simp only [Draft.collect, exportedTypes, hone, hlast, if_neg hexport, List.flatMap_nil, List.flatMap_cons,
    List.map_nil, List.append_nil]
  congr 1 <;> split <;> rfl

/-- What closes as a child of the root and is no export. -/
private theorem close_child {e : Element} (hexport : e.tag.name ≠ "export") {closed : Draft} :
    draft.close ["package"] (frameOf e) (markupOf source e) = .ok closed ↔
      Acceptable draft.format [e] ∧ closed = draft.collect source [e] := by
  have hother : ∀ d, Role.ofTag? draft.format e.tag.name = none → draft.collect source [e] = d →
      (Except.ok d = Except.ok (ε := Fault) closed ↔
        Acceptable draft.format [e] ∧ closed = draft.collect source [e]) := by
    rintro _ hroles rfl
    exact ⟨fun h => ⟨acceptable_other hexport hroles, (Except.ok.inj h).symm⟩, fun h => congrArg _ h.2.symm⟩
  have hcollect : draft.collect source [e] = _ := collect_child hexport
  unfold declarations at hcollect
  unfold Draft.close
  rw [if_neg (by simp), if_pos rfl]
  dsimp only [frameOf]
  split
  · next hname => exact hother _ (by simp [hname, Role.ofTag?]) (by simp [hcollect, hname, Element.text, Role.ofTag?])
  · next hname => exact hother _ (by simp [hname, Role.ofTag?]) (by simp [hcollect, hname, Element.text, Role.ofTag?])
  · next hname => exact hother _ (by simp [hname, Role.ofTag?]) (by simp [hcollect, hname, Role.ofTag?])
  · next hname => exact hother _ (by simp [hname, Role.ofTag?]) (by simp [hcollect, hname, Element.text, Role.ofTag?])
  · next hname hversion hdescription hlicense =>
    have hdependency : draft.collect source [e] =
        { draft with dependencies := draft.dependencies ++ declarations draft.format e } := by
      rw [collect_child hexport, if_neg hname, if_neg hversion, if_neg hdescription, if_neg hlicense, List.append_nil]
    cases hroles : Role.ofTag? draft.format e.tag.name with
    | none => exact hother _ hroles (by simp [hdependency, declarations, hroles])
    | some roles =>
      rw [acceptable_dependency hexport (by simp [hroles]), hdependency]
      show (if e.text.isEmpty then _ else _) = _ ↔ _
      by_cases hempty : e.text = ""
      · rw [hempty]
        exact ⟨nofun, fun h => absurd rfl h.1.1⟩
      · rw [if_neg (by simpa using hempty)]
        have hdeclarations : ∀ c, c = conditionOf e →
            roles.map (fun role => Declaration.mk e.text role c) = declarations draft.format e := by
          rintro _ rfl
          rw [declarations, hroles]
          rfl
        cases hcondition : condition? (e.tag.value? "condition") with
        | error fault =>
          refine ⟨nofun, fun h => ?_⟩
          rw [condition?_eq_ok_iff.2 ⟨h.1.2, rfl⟩] at hcondition
          cases hcondition
        | ok c =>
          obtain ⟨hvalid, hc⟩ := condition?_eq_ok_iff.1 hcondition
          rw [← hdeclarations c hc]
          exact ⟨fun h => ⟨⟨hempty, hvalid⟩, (Except.ok.inj h).symm⟩, fun h => congrArg _ h.2.symm⟩

/-- What holds of every single element of a level, and goes on from one to the next, holds of the whole level. -/
private theorem visitAll_eq_ok_iff (accepts : Draft → List Element → Prop) (collects : Draft → List Element → Draft)
    (hnil : ∀ draft, accepts draft [] ∧ collects draft [] = draft)
    (haccepts : ∀ draft e es, accepts draft (e :: es) ↔ accepts draft [e] ∧ accepts (collects draft [e]) es)
    (hcollects : ∀ draft e es, collects draft (e :: es) = collects (collects draft [e]) es)
    (hone : ∀ draft node e closed, node.element? = some e →
      (visit source path draft node = .ok closed ↔ accepts draft [e] ∧ closed = collects draft [e]))
    {nodes : List Node} {closed : Draft} :
    visitAll source path draft nodes = .ok closed ↔
      accepts draft (elements nodes) ∧ closed = collects draft (elements nodes) := by
  induction nodes generalizing draft with
  | nil =>
    obtain ⟨haccepts, hcollects⟩ := hnil draft
    rw [visitAll, elements, List.filterMap_nil, hcollects]
    exact ⟨fun h => ⟨haccepts, (Except.ok.inj h).symm⟩, fun h => congrArg _ h.2.symm⟩
  | cons node nodes ih =>
    rw [visitAll, bind_eq_ok_iff]
    cases hnode : node.element? with
    | none =>
      have helements : elements (node :: nodes) = elements nodes := List.filterMap_cons_none hnode
      rw [visit_other hnode, helements, ← ih]
      exact ⟨fun ⟨_, h, hrest⟩ => (Except.ok.inj h) ▸ hrest, fun h => ⟨draft, rfl, h⟩⟩
    | some e =>
      have helements : elements (node :: nodes) = e :: elements nodes := List.filterMap_cons_some hnode
      simp only [hone draft node e _ hnode, ih]
      rw [helements, haccepts draft e (elements nodes), hcollects draft e (elements nodes)]
      constructor
      · rintro ⟨_, ⟨he, rfl⟩, hes, rfl⟩
        exact ⟨⟨he, hes⟩, rfl⟩
      · rintro ⟨⟨he, hes⟩, rfl⟩
        exact ⟨_, ⟨he, rfl⟩, hes, rfl⟩

/-! ### The children of exports -/

/-- A draft with the build types among some children of an export. -/
def Draft.addTypes (draft : Draft) (es : List Element) : Draft :=
  { draft with buildTypes := draft.buildTypes ++ (named "build_type" es).map fun e => ⟨e.text, conditionOf e⟩ }

/-- What closes as a child of an export. -/
private theorem close_inExport {e : Element} {description : String} {closed : Draft} :
    draft.close ["package", "export"] (frameOf e) description = .ok closed ↔
      (∀ b ∈ named "build_type" [e], ValidCondition b) ∧ closed = draft.addTypes [e] := by
  unfold Draft.close
  by_cases hname : e.tag.name = "build_type"
  · rw [if_pos ⟨rfl, hname⟩]
    have hnamed : named "build_type" [e] = [e] := by simp [named, hname]
    simp only [Draft.addTypes, hnamed, List.mem_singleton, forall_eq]
    show (condition? (e.tag.value? "condition")).bind _ = _ ↔ _
    cases hcondition : condition? (e.tag.value? "condition") with
    | error fault =>
      refine ⟨nofun, fun h => ?_⟩
      rw [condition?_eq_ok_iff.2 ⟨h.1, rfl⟩] at hcondition
      cases hcondition
    | ok c =>
      obtain ⟨hvalid, rfl⟩ := condition?_eq_ok_iff.1 hcondition
      exact ⟨fun h => ⟨hvalid, (Except.ok.inj h).symm⟩, fun h => congrArg _ h.2.symm⟩
  · have hnamed : named "build_type" [e] = [] := by simp [named, hname]
    rw [if_neg fun h => hname h.2, if_neg (by simp), Draft.addTypes, hnamed, List.map_nil, List.append_nil]
    exact ⟨fun h => ⟨nofun, (Except.ok.inj h).symm⟩, fun h => congrArg _ h.2.symm⟩

/-- Inside of an export the build types are collected. -/
private theorem visitAll_inExport {nodes : List Node} {closed : Draft} :
    visitAll source ["package", "export"] draft nodes = .ok closed ↔
      (∀ b ∈ named "build_type" (elements nodes), ValidCondition b) ∧ closed = draft.addTypes (elements nodes) := by
  refine visitAll_eq_ok_iff (fun _ es => ∀ b ∈ named "build_type" es, ValidCondition b) Draft.addTypes ?_ ?_ ?_ ?_
  · intro draft
    exact ⟨nofun, by simp [Draft.addTypes, named]⟩
  · intro draft e es
    rw [← List.forall_mem_append, named, named, named, ← List.filter_append, List.singleton_append]
  · intro draft e es
    simp only [Draft.addTypes, named, List.append_assoc, ← List.map_append, ← List.filter_append,
      List.singleton_append]
  · intro draft node e closed hnode
    rw [visit_element hnode, visitAll_idle _ _ (by simp) (by simp)]
    exact close_inExport

/-! ### The whole document -/

/-- What one child of the root adds. -/
private theorem visit_child {node : Node} {e : Element} (hnode : node.element? = some e) {closed : Draft} :
    visit source ["package"] draft node = .ok closed ↔
      Acceptable draft.format [e] ∧ closed = draft.collect source [e] := by
  rw [visit_element hnode]
  by_cases hexport : e.tag.name = "export"
  · have htypes : exportedTypes [e] = named "build_type" (elements e.children) := by
      simp [exportedTypes, named, hexport, Element.inside]
    have hacceptable : Acceptable draft.format [e] ↔
        ∀ b ∈ named "build_type" (elements e.children), ValidCondition b := by
      refine ⟨fun h => htypes ▸ h.buildTypes, fun h => ⟨fun e' he' hno => absurd ?_ hno, htypes ▸ h⟩⟩
      simp [List.mem_singleton.1 he', hexport, Role.ofTag?]
    have hcollect : draft.collect source [e] = draft.addTypes (elements e.children) := by
      rw [Draft.collect, htypes]
      simp [Draft.addTypes, named, hexport, declarations, Role.ofTag?]
    have hclose : ∀ visited : Draft, visited.close ["package"] (frameOf e) (markupOf source e) = .ok visited := by
      intro visited
      simp [Draft.close, frameOf, hexport, Role.ofTag?]
    rw [hexport, List.singleton_append, bind_eq_ok_iff, hacceptable, hcollect]
    simp only [hclose, visitAll_inExport]
    exact ⟨fun ⟨_, h, heq⟩ => (Except.ok.inj heq) ▸ h, fun h => ⟨closed, h, rfl⟩⟩
  · rw [visitAll_idle _ _ (by simp) (by simpa using hexport)]
    exact close_child hexport

/-- The children of the root are collected. -/
private theorem visitAll_root {nodes : List Node} {closed : Draft} :
    visitAll source ["package"] draft nodes = .ok closed ↔
      Acceptable draft.format (elements nodes) ∧ closed = draft.collect source (elements nodes) := by
  refine visitAll_eq_ok_iff (fun draft es => Acceptable draft.format es) (Draft.collect source) ?_ ?_ ?_ ?_
  · intro draft
    exact ⟨⟨nofun, nofun⟩, draft.collect_nil⟩
  · intro draft e es
    rw [← List.singleton_append, acceptable_append]
    rfl
  · intro draft e es
    rw [draft.collect_append, List.singleton_append]
  · intro draft node e closed hnode
    exact visit_child hnode

/-! ### Formats -/

private theorem number?_eq_decimal {digits : List Char} (h : ∀ c ∈ digits, c.isDigit) :
    Xml.number? 10 digits = some (decimal digits) := by
  have hdigit : ∀ c : Char, c.isDigit → Xml.digit? 10 c = some (c.toNat - '0'.toNat) := by
    intro c hc
    have hlt : c.toNat - 48 < 10 := by
      simp only [Char.isDigit, Bool.and_eq_true, decide_eq_true_eq, ge_iff_le, UInt32.le_iff_toNat_le] at hc
      have hnine : c.toNat ≤ 57 := hc.2
      omega
    simp [Xml.digit?, hc, Option.filter, hlt]
  have hfrom : ∀ n, digits.foldlM (fun n c => (Xml.digit? 10 c).map (10 * n + ·)) n =
      some (digits.foldl (fun n c => 10 * n + (c.toNat - '0'.toNat)) n) := by
    induction digits with
    | nil => intro n; rfl
    | cons c digits ih =>
      intro n
      rw [List.foldlM_cons, hdigit c (h c List.mem_cons_self), List.foldl_cons]
      exact ih (fun c' hc' => h c' (List.mem_cons_of_mem _ hc')) _
  exact hfrom 0

theorem format?_eq_some_iff {text : String} : format? text = some format ↔ WritesFormat text format := by
  have hdigits : ∀ digits : List Char,
      (if digits.isEmpty || !digits.all Char.isDigit then none else (Xml.number? 10 digits).filter (· < 256)) =
        some format ↔
        digits ≠ [] ∧ (∀ c ∈ digits, c.isDigit) ∧ decimal digits = format ∧ format < 256 := by
    intro digits
    by_cases hall : digits ≠ [] ∧ ∀ c ∈ digits, c.isDigit
    · rw [if_neg (by simpa using hall), number?_eq_decimal hall.2, Option.filter_eq_some_iff, Option.some.injEq,
        decide_eq_true_eq]
      constructor
      · rintro ⟨rfl, hlt⟩
        exact ⟨hall.1, hall.2, rfl, hlt⟩
      · rintro ⟨-, -, rfl, hlt⟩
        exact ⟨rfl, hlt⟩
    · rw [if_pos (by simpa [Classical.or_iff_not_imp_left] using hall)]
      exact ⟨nofun, fun h => absurd ⟨h.1, h.2.1⟩ hall⟩
  unfold format? WritesFormat
  dsimp only
  rw [hdigits]
  split
  · next digits htrim =>
    rw [htrim]
    constructor
    · intro h
      exact ⟨digits, .inr rfl, h⟩
    · rintro ⟨digits', rfl | heq, h⟩
      -- A plus sign is no digit.
      · exact absurd (h.2.1 '+' List.mem_cons_self) (by decide)
      · cases heq
        exact h
  · next hplus =>
    constructor
    · intro h
      exact ⟨_, .inl rfl, h⟩
    · rintro ⟨digits', heq | heq, h⟩
      · rw [heq]
        exact h
      · exact absurd heq (hplus digits')

/-! ### Documents -/

section

variable {p : Progress} {tag : Tag} {frame : Frame}

/-- The first element is opened if it is a package with a format. -/
private theorem enter_root (h : tag.WellFormed) (stop : Nat) :
    Progress.enter {} tag stop = .ok (p, frame) ↔
      tag.name = "package" ∧ (∃ format, GivesFormat tag format ∧ p = ⟨{ format }, [], true⟩) ∧
        frame = opened tag stop := by
  have hcondition := attribute?_of_wellFormed h "condition"
  have hformat := attribute?_of_wellFormed h "format"
  unfold Progress.enter GivesFormat
  simp only [List.isEmpty_nil, if_true, Bool.false_or]
  by_cases hname : tag.name = "package"
  · rw [if_neg (by simpa using hname), hformat, hcondition]
    cases tag.value? "format" with
    | none =>
      constructor
      · rintro ⟨⟩
        exact ⟨hname, ⟨1, rfl, rfl⟩, rfl⟩
      · rintro ⟨-, ⟨_, rfl, rfl⟩, rfl⟩
        rfl
    | some text =>
      simp only [← format?_eq_some_iff]
      dsimp only [bind, Except.bind]
      cases format? text with
      | none =>
        constructor
        · rintro ⟨⟩
        · rintro ⟨-, ⟨_, ⟨⟩, -⟩, -⟩
      | some format =>
        constructor
        · rintro ⟨⟩
          exact ⟨hname, ⟨format, rfl, rfl⟩, rfl⟩
        · rintro ⟨-, ⟨_, ⟨⟩, rfl⟩, rfl⟩
          rfl
  · rw [if_pos (by simpa using hname)]
    constructor
    · rintro ⟨⟩
    · exact fun h => absurd h.1 hname

/-- Walking through a package visits what is inside. -/
private theorem follow_package {node : Node} {e : Element} (hnode : node.element? = some e) (h : node.WellFormed)
    (hname : e.tag.name = "package") (hformat : GivesFormat e.tag format) :
    node.events.foldlM (Progress.follow source) {} =
      (visitAll source ["package"] { format } e.children).map fun draft => ⟨draft, [], true⟩ := by
  cases node with
  | text raw => cases hnode
  | literal content => cases hnode
  | void tag stop =>
    cases hnode
    have henter := (enter_root h stop).2 ⟨hname, ⟨format, hformat, rfl⟩, rfl⟩
    rw [Node.events, List.foldlM_cons, Progress.follow, henter, visitAll]
    rfl
  | element tag start children stop =>
    cases hnode
    have henter := (enter_root h.1 start).2 ⟨hname, ⟨format, hformat, rfl⟩, rfl⟩
    have hchildren : (Xml.events children).foldlM (Progress.follow source) _ = _ :=
      follow_eventsAll children h.2 { format } (opened tag start) [] true
    rw [Node.events, List.foldlM_cons, Progress.follow, henter]
    show (Xml.events children ++ [Xml.Event.closing stop]).foldlM (Progress.follow source) _ = _
    rw [List.foldlM_append, hchildren]
    have hpath : Progress.path ⟨{ format }, [opened tag start], true⟩ = ["package"] :=
      congrArg (fun name => [name]) hname
    rw [hpath]
    dsimp only
    cases visitAll source ["package"] { format } children with
    | error fault => rfl
    | ok visited => rfl

/-- Texts outside of the root are passed over. -/
private theorem follow_outside {node : Node} (hnode : node.element? = none) (h : node.WellFormed) (hp : p.frames = []) :
    node.events.foldlM (Progress.follow source) p = .ok p := by
  have haddText : ∀ text, p.addText text = p := by
    intro text
    rw [Progress.addText, hp]
  cases node with
  | element tag start children stop => cases hnode
  | void tag stop => cases hnode
  | text raw =>
    obtain ⟨text, htext⟩ := Option.isSome_iff_exists.1 h
    rw [Node.events, List.foldlM_cons, Progress.follow, htext]
    exact congrArg Except.ok (haddText text)
  | literal content =>
    rw [Node.events, List.foldlM_cons, Progress.follow]
    exact congrArg Except.ok (haddText content)

private theorem follow_refused (source : List Char) {node : Node} {e : Element} (hnode : node.element? = some e)
    (henter : ∀ stop, ∃ fault, p.enter e.tag stop = .error fault) :
    ∃ fault, node.events.foldlM (Progress.follow source) p = .error fault := by
  cases node with
  | text raw => cases hnode
  | literal content => cases hnode
  | void tag stop =>
    cases hnode
    obtain ⟨fault, hfault⟩ := henter stop
    rw [Node.events, List.foldlM_cons, Progress.follow, hfault]
    exact ⟨fault, rfl⟩
  | element tag start children stop =>
    cases hnode
    obtain ⟨fault, hfault⟩ := henter start
    rw [Node.events, List.foldlM_cons, Progress.follow, hfault]
    exact ⟨fault, rfl⟩

private theorem tag_wellFormed {node : Node} {e : Element} (hnode : node.element? = some e) (h : node.WellFormed) :
    e.tag.WellFormed := by
  cases node with
  | text raw => cases hnode
  | literal content => cases hnode
  | void tag stop =>
    cases hnode
    exact h
  | element tag start children stop =>
    cases hnode
    exact h.1

/-- No other element may come first. -/
private theorem follow_stranger (source : List Char) {node : Node} {e : Element} (hnode : node.element? = some e)
    (h : node.WellFormed) (hno : ¬(e.tag.name = "package" ∧ ∃ format, GivesFormat e.tag format)) :
    ∃ fault, node.events.foldlM (Progress.follow source) {} = .error fault := by
  refine follow_refused source hnode fun stop => ?_
  cases henter : Progress.enter {} e.tag stop with
  | error fault => exact ⟨fault, rfl⟩
  | ok entered =>
    obtain ⟨hname, ⟨format, hformat, -⟩, -⟩ := (enter_root (tag_wellFormed hnode h) stop).1 henter
    exact absurd ⟨hname, format, hformat⟩ hno

/-- After the root no other element may come. -/
private theorem follow_rest {nodes : List Node} (h : Xml.WellFormed nodes) :
    (Xml.events nodes).foldlM (Progress.follow source) ⟨draft, [], true⟩ = .ok p ↔
      elements nodes = [] ∧ p = ⟨draft, [], true⟩ := by
  induction nodes with
  | nil => exact ⟨fun h => ⟨rfl, (Except.ok.inj h).symm⟩, fun h => congrArg _ h.2.symm⟩
  | cons node nodes ih =>
    rw [Xml.events, List.foldlM_append]
    cases hnode : node.element? with
    | none =>
      have helements : elements (node :: nodes) = elements nodes := List.filterMap_cons_none hnode
      rw [follow_outside hnode h.1 rfl, helements]
      exact ih h.2
    | some e =>
      have helements : elements (node :: nodes) = e :: elements nodes := List.filterMap_cons_some hnode
      have henter : ∀ stop, ∃ fault, Progress.enter ⟨draft, [], true⟩ e.tag stop = .error fault := fun stop =>
        ⟨.unexpectedRoot e.tag.name, rfl⟩
      obtain ⟨fault, hfault⟩ := follow_refused source hnode henter
      rw [hfault, helements]
      exact ⟨nofun, nofun⟩

/-- Walking through a whole document. -/
private theorem follow_document {nodes : List Node} (h : Xml.WellFormed nodes) :
    (Xml.events nodes).foldlM (Progress.follow source) {} = .ok p ↔
      elements nodes = [] ∧ p = {} ∨
        ∃ root format, elements nodes = [root] ∧ root.tag.name = "package" ∧ GivesFormat root.tag format ∧
          ∃ draft, visitAll source ["package"] { format } root.children = .ok draft ∧ p = ⟨draft, [], true⟩ := by
  induction nodes with
  | nil =>
    constructor
    · intro h
      exact .inl ⟨rfl, (Except.ok.inj h).symm⟩
    · rintro (⟨-, rfl⟩ | ⟨root, format, hroot, -⟩)
      · rfl
      · cases hroot
  | cons node nodes ih =>
    rw [Xml.events, List.foldlM_append]
    cases hnode : node.element? with
    | none =>
      have helements : elements (node :: nodes) = elements nodes := List.filterMap_cons_none hnode
      rw [follow_outside hnode h.1 rfl, helements]
      exact ih h.2
    | some e =>
      have helements : elements (node :: nodes) = e :: elements nodes := List.filterMap_cons_some hnode
      rw [helements]
      constructor
      · intro hfollow
        by_cases hpackage : e.tag.name = "package" ∧ ∃ format, GivesFormat e.tag format
        · obtain ⟨hname, format, hformat⟩ := hpackage
          rw [follow_package hnode h.1 hname hformat] at hfollow
          cases hvisit : visitAll source ["package"] { format } e.children with
          | error fault =>
            rw [hvisit] at hfollow
            cases hfollow
          | ok draft =>
            rw [hvisit] at hfollow
            obtain ⟨hrest, rfl⟩ := (follow_rest h.2).1 hfollow
            exact .inr ⟨e, format, by rw [hrest], hname, hformat, draft, hvisit, rfl⟩
        · obtain ⟨fault, hfault⟩ := follow_stranger source hnode h.1 hpackage
          rw [hfault] at hfollow
          cases hfollow
      · rintro (⟨hnil, -⟩ | ⟨root, format, hroot, hname, hformat, draft, hvisit, rfl⟩)
        · cases hnil
        · obtain ⟨rfl, hrest⟩ := List.cons.inj hroot
          rw [follow_package hnode h.1 hname hformat, hvisit]
          exact (follow_rest h.2).2 ⟨hrest, rfl⟩

end

private theorem finish_eq_ok_iff {m : Manifest} :
    draft.finish = .ok m ↔ ∃ name version, draft.name = some name ∧ name ≠ "" ∧ draft.version = some version ∧
      version ≠ "" ∧ m = ⟨draft.format, name, version, draft.description, draft.licenses, draft.buildTypes,
        draft.dependencies⟩ := by
  have hfilter : ∀ (value : Option String) (text : String),
      value.filter (!·.isEmpty) = some text ↔ value = some text ∧ text ≠ "" := by
    intro value text
    rw [Option.filter_eq_some_iff, Bool.not_eq_true', String.isEmpty_eq_false_iff]
  unfold Draft.finish
  constructor
  · intro h
    cases hname : draft.name.filter (!·.isEmpty) with
    | none =>
      rw [hname] at h
      cases h
    | some name =>
      cases hversion : draft.version.filter (!·.isEmpty) with
      | none =>
        rw [hname, hversion] at h
        cases h
      | some version =>
        rw [hname, hversion] at h
        obtain ⟨hname, hname'⟩ := (hfilter _ _).1 hname
        obtain ⟨hversion, hversion'⟩ := (hfilter _ _).1 hversion
        exact ⟨name, version, hname, hname', hversion, hversion', (Except.ok.inj h).symm⟩
  · rintro ⟨name, version, hname, hname', hversion, hversion', rfl⟩
    rw [(hfilter _ _).2 ⟨hname, hname'⟩, (hfilter _ _).2 ⟨hversion, hversion'⟩]

/-- What has been collected from the children of the root is the manifest, if it has a name and a version. -/
private theorem finish_collect {root : Element} {m : Manifest} :
    (Draft.collect source { format } root.inside).finish = .ok m ↔
      (∃ e, (named "name" root.inside).getLast? = some e ∧ e.text ≠ "") ∧
        (∃ e, (named "version" root.inside).getLast? = some e ∧ e.text ≠ "") ∧ m = ofRoot source root format := by
  simp only [finish_eq_ok_iff, Draft.collect, Option.or_none, Option.map_eq_some_iff, List.nil_append, ofRoot]
  constructor
  · rintro ⟨_, _, ⟨e, he, rfl⟩, hname, ⟨e', he', rfl⟩, hversion, rfl⟩
    rw [he, he']
    exact ⟨⟨e, rfl, hname⟩, ⟨e', rfl, hversion⟩, rfl⟩
  · rintro ⟨⟨e, he, hname⟩, ⟨e', he', hversion⟩, rfl⟩
    rw [he, he']
    exact ⟨_, _, ⟨e, rfl, rfl⟩, hname, ⟨e', rfl, rfl⟩, hversion, rfl⟩

/-- Following the events of a document succeeds exactly if its trees describe a manifest, and gives that one. -/
theorem ofEvents_eq_ok_iff (source : List Char) {nodes : List Node} (h : Xml.WellFormed nodes) (m : Manifest) :
    ofEvents source ⟨Xml.events nodes, true⟩ = .ok m ↔
      ∃ root format, Describes nodes root format ∧ m = ofRoot source root format := by
  unfold ofEvents
  constructor
  · intro hread
    cases hfollow : (Xml.events nodes).foldlM (Progress.follow source) {} with
    | error fault =>
      rw [hfollow] at hread
      cases hread
    | ok p =>
      rw [hfollow] at hread
      obtain ⟨-, rfl⟩ | ⟨root, format, hroot, hname, hformat, draft, hvisit, rfl⟩ := (follow_document h).1 hfollow
      -- Without a root there is no package.
      · cases hread
      · obtain ⟨hacceptable, rfl⟩ := visitAll_root.1 hvisit
        obtain ⟨hnamed, hversioned, rfl⟩ := finish_collect.1 hread
        exact ⟨root, format, ⟨hroot, hname, hformat, hacceptable.dependencies, hacceptable.buildTypes, hnamed,
          hversioned⟩, rfl⟩
  · rintro ⟨root, format, hd, rfl⟩
    have hvisit : visitAll source ["package"] { format } root.children =
        .ok (Draft.collect source { format } root.inside) := visitAll_root.2 ⟨⟨hd.dependencies, hd.buildTypes⟩, rfl⟩
    rw [(follow_document h).2 (.inr ⟨root, format, hd.single, hd.tag, hd.number, _, hvisit, rfl⟩)]
    exact finish_collect.2 ⟨hd.name, hd.version, rfl⟩

/-- A document with two names, and with an element inside of the text of a dependency. -/
def interrupted : List Node :=
  [.element ⟨"package", { pairs := [("format", [' ', '2'])] }⟩ 21
    [.element ⟨"name", {}⟩ 27 [.text ['o', 'l', 'd']] 37,
      .element ⟨"depend", { pairs := [("condition", ['$', 'A', '=', '=', 'x'])] }⟩ 63
        [.text ['b'], .element ⟨"i", {}⟩ 67 [.text ['n', 'o']] 73, .literal ['c']] 95,
      .element ⟨"version", {}⟩ 104 [.text ['1']] 115,
      .element ⟨"name", {}⟩ 121 [.text ['n', 'e', 'w']] 131] 141]

theorem parse_interrupted :
    parse ("<package format=' 2'><name>old</name><depend condition='$A==x'>b<i>no</i><![CDATA[c]]></depend>" ++
      "<version>1</version><name>new</name></package>") = .ok {
        format := 2
        name := "new"
        version := "1"
        description := ""
        licenses := []
        buildTypes := []
        dependencies := [Role.build, .buildExport, .exec].map fun role =>
          ⟨"bc", role, some ⟨"$A==x", .compare (.variable "A") .eq (.literal "x")⟩⟩ } := by
  have hread : Xml.Document.read
      ("<package format=' 2'><name>old</name><depend condition='$A==x'>b<i>no</i><![CDATA[c]]></depend>" ++
        "<version>1</version><name>new</name></package>").toList = ⟨Xml.events interrupted, true⟩ := by
    decide +kernel
  have hwell : Xml.WellFormed interrupted := by
    simp only [interrupted, Xml.WellFormed, Node.WellFormed, Tag.WellFormed]
    decide +kernel
  rw [parse, hread]
  refine (ofEvents_eq_ok_iff _ hwell _).2 ⟨_, 2, ⟨rfl, rfl, ?_, ?_, ?_, ⟨_, rfl, ?_⟩, ⟨_, rfl, ?_⟩⟩, ?_⟩
  · exact format?_eq_some_iff.1 (by decide +kernel)
  · decide +kernel
  · decide +kernel
  · decide +kernel
  · decide +kernel
  · decide +kernel

end RosRecipes.Manifest
