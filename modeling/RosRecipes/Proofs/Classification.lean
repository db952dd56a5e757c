import RosRecipes.Classification
import RosRecipes.Proofs.Rosdep.Answers
import RosRecipes.Proofs.Text.ByteOrder

/-!
# Classification as algebra of sets

What classification gives is said by the packages of the active declarations in some roles
(`Manifest.packagesIn`).  With a database that answers, the categories are differences of such sets, and together
they have all packages of the roles that are looked up.  If some declaration cannot be satisfied, the error names
the first one, in the order of the roles and within a role in that of the names.

Classification looks the declarations up one after the other (`Manifest.sought`).  The steps are first freed of the
world (`gives_resolveRoles`), then the fold over them is computed (`foldlM_gather`).
-/

namespace RosRecipes.Manifest

open Rosdep (Lookup)

variable {σ : Type} {db : Rosdep.Database} {runner : Runner σ} {f : String → Lookup} {m : Manifest}
  {ctx : Condition.Context}

/-- The roles whose declarations are looked up, in this order. -/
def searchedRoles : List Role := [.build, .buildTool, .exec, .buildExport, .buildToolExport, .test]

/-- The packages of all active declarations in some roles, when names are answered with `f`. -/
def packagesIn (m : Manifest) (ctx : Condition.Context) (f : String → Lookup) (roles : List Role) : NameSet :=
  .ofList ((m.dependencies.filter fun d => d.role ∈ roles ∧ d.isActive ctx).flatMap fun d =>
    (((f d.name).packages? d.name).getD ∅).toList)

/-- An active declaration in one of the roles that cannot be satisfied. -/
def Unsatisfied (m : Manifest) (ctx : Condition.Context) (f : String → Lookup) (roles : List Role)
    (d : Declaration) : Prop :=
  d ∈ m.dependencies ∧ d.role ∈ roles ∧ d.isActive ctx ∧ (f d.name).packages? d.name = none

/-- Is a declaration looked up before another one, or together with it? -/
def Precedes (roles : List Role) (d d' : Declaration) : Prop :=
  roles.idxOf d.role < roles.idxOf d'.role ∨
    d.role = d'.role ∧ (Text.bytes d.name < Text.bytes d'.name ∨ d.name = d'.name)

/-- The manifest with only those declarations that classification looks up. -/
def searchedPart (m : Manifest) (ctx : Condition.Context) : Manifest :=
  { m with dependencies := m.dependencies.filter fun d => d.role ∈ searchedRoles ∧ d.isActive ctx }

theorem mem_packagesIn {roles : List Role} {p : String} :
    p ∈ m.packagesIn ctx f roles ↔ ∃ d ∈ m.dependencies, d.role ∈ roles ∧ d.isActive ctx ∧
      ∃ packages, (f d.name).packages? d.name = some packages ∧ p ∈ packages := by
  unfold packagesIn
  rw [NameSet.mem_ofList, List.mem_flatMap]
  constructor
  · rintro ⟨d, hd, hp⟩
    obtain ⟨hmem, hd⟩ := List.mem_filter.1 hd
    obtain ⟨hrole, hactive⟩ := of_decide_eq_true hd
    cases hpackages : (f d.name).packages? d.name with
    | none =>
      rw [hpackages] at hp
      cases hp
    | some packages =>
      rw [hpackages] at hp
      exact ⟨d, hmem, hrole, hactive, packages, hpackages, hp⟩
  · rintro ⟨d, hmem, hrole, hactive, packages, hpackages, hp⟩
    refine ⟨d, List.mem_filter.2 ⟨hmem, decide_eq_true ⟨hrole, hactive⟩⟩, ?_⟩
    rw [hpackages]
    exact hp

theorem mem_activeNames {role : Role} {name : String} :
    name ∈ m.activeNames ctx role ↔ ∃ d ∈ m.dependencies, d.role = role ∧ d.isActive ctx ∧ d.name = name := by
  unfold activeNames
  rw [NameSet.mem_ofList, List.mem_map]
  constructor
  · rintro ⟨d, hd, hname⟩
    obtain ⟨hmem, hd⟩ := List.mem_filter.1 hd
    obtain ⟨hrole, hactive⟩ := of_decide_eq_true hd
    exact ⟨d, hmem, hrole, hactive, hname⟩
  · rintro ⟨d, hmem, hrole, hactive, hname⟩
    exact ⟨d, List.mem_filter.2 ⟨hmem, decide_eq_true ⟨hrole, hactive⟩⟩, hname⟩

/-! ### The lookups in order -/

/-- The roles and names that are looked up, in order. -/
def sought (m : Manifest) (ctx : Condition.Context) (roles : List Role) : List (Role × String) :=
  roles.flatMap fun role => (m.activeNames ctx role).toList.map fun name => (role, name)

theorem mem_sought {roles : List Role} {role : Role} {name : String} :
    (role, name) ∈ m.sought ctx roles ↔
      ∃ d ∈ m.dependencies, d.role ∈ roles ∧ d.isActive ctx ∧ d.role = role ∧ d.name = name := by
  simp only [sought, List.mem_flatMap, List.mem_map, Prod.mk.injEq]
  constructor
  · rintro ⟨role', hrole, name', hname, rfl, rfl⟩
    obtain ⟨d, hd, rfl, hactive, rfl⟩ := mem_activeNames.1 (NameSet.mem_def.2 hname)
    exact ⟨d, hd, hrole, hactive, rfl, rfl⟩
  · rintro ⟨d, hd, hrole, hactive, rfl, rfl⟩
    exact ⟨d.role, hrole, d.name, NameSet.mem_def.1 (mem_activeNames.2 ⟨d, hd, rfl, hactive, rfl⟩), rfl, rfl⟩

/-- Lookups follow the order of the roles, and within a role that of the names. -/
theorem sought_increasing {roles : List Role} (h : roles.Nodup) :
    (m.sought ctx roles).Pairwise fun a b =>
      roles.idxOf a.1 < roles.idxOf b.1 ∨ a.1 = b.1 ∧ a.2 < b.2 := by
  refine List.pairwise_flatMap.2 ⟨?_, ?_⟩
  · intro role _
    refine List.pairwise_map.2 ((m.activeNames ctx role).increasing.imp ?_)
    intro name name' hlt
    exact .inr ⟨rfl, hlt⟩
  · have hroles : roles.Pairwise fun role role' => roles.idxOf role < roles.idxOf role' := by
      rw [List.pairwise_iff_getElem]
      intro i j hi hj hij
      rw [h.idxOf_getElem, h.idxOf_getElem]
      exact hij
    refine hroles.imp ?_
    intro role role' hlt a ha b hb
    obtain ⟨_, _, rfl⟩ := List.mem_map.1 ha
    obtain ⟨_, _, rfl⟩ := List.mem_map.1 hb
    exact .inl hlt

/-! ### The fold over the lookups -/

/-- Adds the packages of one lookup, or reports it. -/
def gather (m : Manifest) (f : String → Lookup) (resolved : NameSet) (entry : Role × String) :
    Except Error NameSet :=
  match (f entry.2).packages? entry.2 with
  | some packages => .ok (resolved ∪ packages)
  | none => .error (.unresolved m.name entry.2 entry.1)

private theorem foldlM_flatten {γ δ : Type} {g : NameSet → γ × δ → Except Error NameSet} (names : γ → List δ)
    (roles : List γ) (s : NameSet) :
    roles.foldlM (fun s role => (names role).foldlM (fun s name => g s (role, name)) s) s =
      (roles.flatMap fun role => (names role).map fun name => (role, name)).foldlM g s := by
  induction roles generalizing s with
  | nil => rfl
  | cons role roles ih =>
    rw [List.foldlM_cons, List.flatMap_cons, List.foldlM_append, List.foldlM_map]
    exact congrArg _ (funext ih)

/-- Where the database answers, the roles are resolved by a fold that does not touch the world. -/
theorem gives_resolveRoles (roles : List Role) :
    Action.Gives (db.Answers runner f) (m.resolveRoles db runner ctx roles)
      ((m.sought ctx roles).foldlM (m.gather f) ∅) := by
  rw [sought, ← foldlM_flatten]
  refine Action.Gives.foldlM (fun resolved role => ?_) roles ∅
  refine Action.Gives.foldlM (fun resolved name => ?_) (m.activeNames ctx role).toList resolved
  unfold resolveName gather
  cases hpackages : (f name).packages? name with
  | none =>
    refine Action.Gives.bind_error ((Rosdep.Database.Answers.resolve name).bind_ok ?_)
    rw [hpackages]
    exact .throw _
  | some packages =>
    refine Action.Gives.bind_ok ((Rosdep.Database.Answers.resolve name).bind_ok ?_) (.pure _)
    rw [hpackages]
    exact .pure packages

/-- The fold stops at the first name that cannot be satisfied, and otherwise adds everything up. -/
theorem foldlM_gather (l : List (Role × String)) (s : NameSet) :
    l.foldlM (m.gather f) s =
      match l.find? fun entry => (f entry.2).packages? entry.2 = none with
      | some entry => .error (.unresolved m.name entry.2 entry.1)
      | none => .ok (l.foldl (fun s entry => s ∪ ((f entry.2).packages? entry.2).getD ∅) s) := by
  induction l generalizing s with
  | nil => rfl
  | cons entry l ih =>
    rw [List.foldlM_cons, List.find?_cons, List.foldl_cons]
    unfold gather
    cases hpackages : (f entry.2).packages? entry.2 with
    | none => rfl
    | some packages =>
      simp only [reduceCtorEq, decide_false, Option.getD_some]
      exact ih _

/-! ### Categories -/

/-- Is there nothing that this entry stands for? -/
private def isUnsatisfied (f : String → Lookup) (entry : Role × String) : Bool :=
  (f entry.2).packages? entry.2 = none

private theorem mem_foldl_union {l : List (Role × String)} {s : NameSet} {p : String} :
    p ∈ l.foldl (fun s entry => s ∪ ((f entry.2).packages? entry.2).getD ∅) s ↔
      p ∈ s ∨ ∃ entry ∈ l, p ∈ ((f entry.2).packages? entry.2).getD ∅ := by
  induction l generalizing s with
  | nil => simp
  | cons entry l ih =>
    rw [List.foldl_cons, ih, NameSet.mem_union, or_assoc]
    simp only [List.mem_cons, exists_eq_or_imp]

private theorem foldl_sought (roles : List Role) :
    (m.sought ctx roles).foldl (fun s entry => s ∪ ((f entry.2).packages? entry.2).getD ∅) ∅ =
      m.packagesIn ctx f roles := by
  refine NameSet.ext_mem fun p => ?_
  rw [mem_foldl_union, mem_packagesIn]
  constructor
  · rintro (hp | ⟨⟨role, name⟩, hentry, hp⟩)
    · exact absurd hp (NameSet.not_mem_empty p)
    · obtain ⟨d, hd, hrole, hactive, rfl, rfl⟩ := mem_sought.1 hentry
      cases hpackages : (f d.name).packages? d.name with
      | none =>
        rw [hpackages] at hp
        exact absurd hp (NameSet.not_mem_empty p)
      | some packages =>
        rw [hpackages] at hp
        exact ⟨d, hd, hrole, hactive, packages, hpackages, hp⟩
  · rintro ⟨d, hd, hrole, hactive, packages, hpackages, hp⟩
    refine .inr ⟨(d.role, d.name), mem_sought.2 ⟨d, hd, hrole, hactive, rfl, rfl⟩, ?_⟩
    rw [hpackages]
    exact hp

/-- Some roles resolve to their packages, or the first entry that cannot be satisfied is reported. -/
theorem gives_packagesIn (roles : List Role) :
    Action.Gives (db.Answers runner f) (m.resolveRoles db runner ctx roles)
      (match (m.sought ctx roles).find? (isUnsatisfied f) with
        | some entry => .error (.unresolved m.name entry.2 entry.1)
        | none => .ok (m.packagesIn ctx f roles)) := by
  have h : Action.Gives (db.Answers runner f) (m.resolveRoles db runner ctx roles) _ := gives_resolveRoles roles
  rw [foldlM_gather, foldl_sought] at h
  exact h

/-- The categories of the packages that the roles stand for. -/
def categories (m : Manifest) (ctx : Condition.Context) (f : String → Lookup) : Categories :=
  let propagated := m.packagesIn ctx f [.exec, .buildExport, .buildToolExport]
  let build := m.packagesIn ctx f [.build, .buildTool] \ propagated
  { build, propagated
    check := m.packagesIn ctx f [.test] \ build
    native := m.packagesIn ctx f [.buildTool, .buildToolExport] }

/-- Where the database answers, classification gives the categories, or reports the first entry that cannot be
satisfied. -/
theorem gives_classify :
    Action.Gives (db.Answers runner f) (m.classify db runner ctx)
      (match (m.sought ctx searchedRoles).find? (isUnsatisfied f) with
        | some entry => .error (.unresolved m.name entry.2 entry.1)
        | none => .ok (m.categories ctx f)) := by
  have hsplit : m.sought ctx searchedRoles =
      m.sought ctx [.build, .buildTool] ++ (m.sought ctx [.exec, .buildExport, .buildToolExport] ++
        m.sought ctx [.test]) := by
    simp only [sought, ← List.flatMap_append]
    rfl
  rw [hsplit, List.find?_append, List.find?_append]
  -- The groups are looked up one after the other; the first one that fails decides.
  unfold classify
  have hroles : ∀ roles, Action.Gives (db.Answers runner f) (m.resolveRoles db runner ctx roles) _ :=
    fun roles => gives_packagesIn roles
  have hbuild := hroles [.build, .buildTool]
  have hrun := hroles [.exec, .buildExport, .buildToolExport]
  have htest := hroles [.test]
  have hnative := hroles [.buildTool, .buildToolExport]
  cases hb : (m.sought ctx [.build, .buildTool]).find? (isUnsatisfied f) with
  | some entry =>
    rw [hb] at hbuild
    exact hbuild.bind_error
  | none =>
    rw [hb] at hbuild
    refine hbuild.bind_ok ?_
    cases hr : (m.sought ctx [.exec, .buildExport, .buildToolExport]).find? (isUnsatisfied f) with
    | some entry =>
      rw [hr] at hrun
      exact hrun.bind_error
    | none =>
      rw [hr] at hrun
      refine hrun.bind_ok ?_
      cases ht : (m.sought ctx [.test]).find? (isUnsatisfied f) with
      | some entry =>
        rw [ht] at htest
        exact htest.bind_error
      | none =>
        -- The native roles are among those that have been looked up already.
        have hn : (m.sought ctx [.buildTool, .buildToolExport]).find? (isUnsatisfied f) = none := by
          rw [List.find?_eq_none] at hb hr ⊢
          rintro ⟨role, name⟩ hentry
          obtain ⟨d, hd, hrole, hactive, rfl, rfl⟩ := mem_sought.1 hentry
          rcases List.mem_cons.1 hrole with heq | hrole
          · exact hb _ (mem_sought.2 ⟨d, hd, by simp [heq], hactive, rfl, rfl⟩)
          · exact hr _ (mem_sought.2 ⟨d, hd, by simp [List.mem_singleton.1 hrole], hactive, rfl, rfl⟩)
        rw [ht] at htest
        rw [hn] at hnative
        exact htest.bind_ok (hnative.bind_ok (.pure _))

theorem find?_sought_eq_none_iff {roles : List Role} :
    (m.sought ctx roles).find? (isUnsatisfied f) = none ↔ ¬ ∃ d, m.Unsatisfied ctx f roles d := by
  rw [List.find?_eq_none]
  constructor
  · rintro h ⟨d, hd, hrole, hactive, hnone⟩
    exact h (d.role, d.name) (mem_sought.2 ⟨d, hd, hrole, hactive, rfl, rfl⟩) (decide_eq_true hnone)
  · rintro h ⟨role, name⟩ hentry hnone
    obtain ⟨d, hd, hrole, hactive, rfl, rfl⟩ := mem_sought.1 hentry
    exact h ⟨d, hd, hrole, hactive, of_decide_eq_true hnone⟩

/-- The entry that is found stands for the first declaration that cannot be satisfied. -/
theorem first_of_find?_sought {roles : List Role} (hroles : roles.Nodup) {entry : Role × String}
    (h : (m.sought ctx roles).find? (isUnsatisfied f) = some entry) :
    ∃ d, m.Unsatisfied ctx f roles d ∧ (∀ d', m.Unsatisfied ctx f roles d' → Precedes roles d d') ∧
      d.role = entry.1 ∧ d.name = entry.2 := by
  obtain ⟨hnone, before, after, hsplit, hbefore⟩ := List.find?_eq_some_iff_append.1 h
  obtain ⟨role, name⟩ := entry
  have hmem : (role, name) ∈ m.sought ctx roles := by simp [hsplit]
  obtain ⟨d, hd, hrole, hactive, rfl, rfl⟩ := mem_sought.1 hmem
  refine ⟨d, ⟨hd, hrole, hactive, of_decide_eq_true hnone⟩, ?_, rfl, rfl⟩
  rintro d' ⟨hd', hrole', hactive', hnone'⟩
  have hmem' : (d'.role, d'.name) ∈ m.sought ctx roles := mem_sought.2 ⟨d', hd', hrole', hactive', rfl, rfl⟩
  have hordered : (m.sought ctx roles).Pairwise _ := sought_increasing hroles
  rw [hsplit] at hmem' hordered
  rcases List.mem_append.1 hmem' with hin | hin
  · have hgood := hbefore _ hin
    rw [isUnsatisfied, decide_eq_true hnone'] at hgood
    cases hgood
  · rcases List.mem_cons.1 hin with heq | hin
    · obtain ⟨hsame, hname⟩ := Prod.mk.inj heq
      exact .inr ⟨hsame.symm, .inr hname.symm⟩
    · rcases (List.pairwise_cons.1 (List.pairwise_append.1 hordered).2.1).1 _ hin with hlt | ⟨hsame, hlt⟩
      · exact .inl hlt
      · exact .inr ⟨hsame, .inl (Text.bytes_lt_bytes.2 hlt)⟩

/-! ### Declarations that are not looked up -/

private theorem activeNames_searchedPart {role : Role} (h : role ∈ searchedRoles) :
    (m.searchedPart ctx).activeNames ctx role = m.activeNames ctx role := by
  refine NameSet.ext_mem fun name => ?_
  rw [mem_activeNames, mem_activeNames]
  constructor
  · rintro ⟨d, hd, hrole, hactive, hname⟩
    exact ⟨d, (List.mem_filter.1 hd).1, hrole, hactive, hname⟩
  · rintro ⟨d, hd, rfl, hactive, hname⟩
    exact ⟨d, List.mem_filter.2 ⟨hd, decide_eq_true ⟨h, hactive⟩⟩, rfl, hactive, hname⟩

private theorem resolveRoles_searchedPart {roles : List Role} (h : ∀ role ∈ roles, role ∈ searchedRoles) :
    (m.searchedPart ctx).resolveRoles db runner ctx roles = m.resolveRoles db runner ctx roles := by
  unfold resolveRoles
  generalize (∅ : NameSet) = resolved
  induction roles generalizing resolved with
  | nil => rfl
  | cons role roles ih =>
    rw [List.foldlM_cons, List.foldlM_cons, activeNames_searchedPart (h role List.mem_cons_self)]
    exact congrArg _ (funext (ih fun role' hrole' => h role' (List.mem_cons_of_mem _ hrole')))

/-- Inactive declarations, and those for documentation and for the first format's runs, are not looked up. -/
theorem classify_searchedPart : (m.searchedPart ctx).classify db runner ctx = m.classify db runner ctx := by
  unfold classify
  rw [resolveRoles_searchedPart (by decide), resolveRoles_searchedPart (by decide),
    resolveRoles_searchedPart (by decide), resolveRoles_searchedPart (by decide)]

/-! ### The algebra -/

private theorem mem_packagesIn_of_subset {roles roles' : List Role} (h : ∀ role ∈ roles, role ∈ roles') {p : String}
    (hp : p ∈ m.packagesIn ctx f roles) : p ∈ m.packagesIn ctx f roles' := by
  obtain ⟨d, hd, hrole, hrest⟩ := mem_packagesIn.1 hp
  exact mem_packagesIn.2 ⟨d, hd, h _ hrole, hrest⟩

/-- The two differences lose no package. -/
theorem all_categories : (m.categories ctx f).all = m.packagesIn ctx f searchedRoles := by
  refine NameSet.ext_mem fun p => ?_
  simp only [Categories.all, categories, NameSet.mem_union, NameSet.mem_sdiff]
  constructor
  · rintro (((⟨hp, -⟩ | hp) | ⟨hp, -⟩) | hp)
    · exact mem_packagesIn_of_subset (by decide) hp
    · exact mem_packagesIn_of_subset (by decide) hp
    · exact mem_packagesIn_of_subset (by decide) hp
    · exact mem_packagesIn_of_subset (by decide) hp
  · intro hp
    by_cases hrun : p ∈ m.packagesIn ctx f [.exec, .buildExport, .buildToolExport]
    · exact .inl (.inl (.inr hrun))
    by_cases hbuild : p ∈ m.packagesIn ctx f [.build, .buildTool]
    · exact .inl (.inl (.inl ⟨hbuild, hrun⟩))
    -- A package of neither group is declared in the one role that is left.
    have htest : p ∈ m.packagesIn ctx f [.test] := by
      obtain ⟨d, hd, hrole, hrest⟩ := mem_packagesIn.1 hp
      refine mem_packagesIn.2 ⟨d, hd, ?_, hrest⟩
      by_cases hin : d.role ∈ [Role.build, .buildTool]
      · exact absurd (mem_packagesIn.2 ⟨d, hd, hin, hrest⟩) hbuild
      by_cases hin' : d.role ∈ [Role.exec, .buildExport, .buildToolExport]
      · exact absurd (mem_packagesIn.2 ⟨d, hd, hin', hrest⟩) hrun
      simp only [searchedRoles, List.mem_cons, List.not_mem_nil, or_false] at hrole hin hin' ⊢
      rcases hrole with h | h | h | h | h | h
      · exact absurd (.inl h) hin
      · exact absurd (.inr h) hin
      · exact absurd (.inl h) hin'
      · exact absurd (.inr (.inl h)) hin'
      · exact absurd (.inr (.inr h)) hin'
      · exact h
    exact .inl (.inr ⟨htest, fun h => hbuild h.1⟩)

/-- Classification is an algebra of sets.  It succeeds exactly if every active declaration in the roles that are
looked up can be satisfied, and then gives disjoint categories that lose nothing; otherwise it reports the first
declaration that cannot be satisfied.  No other declaration matters. -/
theorem classification_is_algebra {w : World σ} (h : db.Answers runner f w) :
    let outcome := ((m.classify db runner ctx).perform w).1
    let R := m.packagesIn ctx f
    ((∃ c, outcome = .ok c) ↔ ¬ ∃ d, m.Unsatisfied ctx f searchedRoles d) ∧
    (∀ c, outcome = .ok c →
      c.propagated = R [.exec, .buildExport, .buildToolExport] ∧ c.build = R [.build, .buildTool] \ c.propagated ∧
      c.check = R [.test] \ c.build ∧ c.native = R [.buildTool, .buildToolExport] ∧
      (∀ p ∈ c.build, p ∉ c.propagated) ∧ (∀ p ∈ c.check, p ∉ c.build) ∧ c.all = R searchedRoles) ∧
    (∀ e, outcome = .error e → ∃ d, m.Unsatisfied ctx f searchedRoles d ∧
      (∀ d', m.Unsatisfied ctx f searchedRoles d' → Precedes searchedRoles d d') ∧
      e = .unresolved m.name d.name d.role) ∧
    (m.searchedPart ctx).classify db runner ctx = m.classify db runner ctx := by
  intro outcome R
  have houtcome : outcome = _ := (gives_classify w h).1
  cases hfind : (m.sought ctx searchedRoles).find? (isUnsatisfied f) with
  | none =>
    rw [hfind] at houtcome
    refine ⟨iff_of_true ⟨_, houtcome⟩ (find?_sought_eq_none_iff.1 hfind), ?_, ?_, classify_searchedPart⟩
    · intro c hc
      rw [houtcome] at hc
      cases hc
      exact ⟨rfl, rfl, rfl, rfl, fun p hp => (NameSet.mem_sdiff.1 hp).2, fun p hp => (NameSet.mem_sdiff.1 hp).2,
        all_categories⟩
    · intro e he
      rw [houtcome] at he
      cases he
  | some entry =>
    rw [hfind] at houtcome
    obtain ⟨d, hd, hfirst, hrole, hname⟩ := first_of_find?_sought (by decide) hfind
    refine ⟨iff_of_false ?_ (not_not_intro ⟨d, hd⟩), ?_, ?_, classify_searchedPart⟩
    · rintro ⟨c, hc⟩
      rw [houtcome] at hc
      cases hc
    · intro c hc
      rw [houtcome] at hc
      cases hc
    · intro e he
      rw [houtcome] at he
      cases he
      exact ⟨d, hd, hfirst, by rw [hrole, hname]⟩

/-- A package that is needed to build and to run is propagated only, and documentation tools are no inputs. -/
theorem classification_of_siblings :
    let m : Manifest := {
      format := 3, name := "demo", version := "0.1.0", description := "", licenses := [], buildTypes := []
      dependencies := [⟨"rclcpp", .build, none⟩, ⟨"rclcpp", .exec, none⟩, ⟨"my_lint", .test, none⟩,
        ⟨"doxygen", .doc, none⟩] }
    let silent : Runner Unit := ⟨fun _ s t => (.error .yaml, s, t)⟩
    let w : World Unit := { tools := (), files := ⟨∅, []⟩ }
    Rosdep.Database.nothing.Answers silent (fun _ => .unknown) w ∧
      ∃ c, ((m.classify .nothing silent ∅).perform w).1 = .ok c ∧
        c.propagated.toList = ["rclcpp"] ∧ c.build.toList = [] ∧ c.check.toList = ["my-lint"] ∧
          c.native.toList = [] := by
  intro m silent w
  have hanswers : Rosdep.Database.nothing.Answers silent (fun _ => .unknown) w := Rosdep.Database.answers_of_knows rfl
  have hspec := @classification_is_algebra Unit .nothing silent (fun _ => .unknown) m ∅ w hanswers
  obtain ⟨hok, hsets, -, -⟩ := hspec
  obtain ⟨c, hc⟩ := hok.2 (by rintro ⟨d, -, -, -, hnone⟩; cases hnone)
  obtain ⟨hpropagated, hbuild, hcheck, hnative, -⟩ := hsets c hc
  refine ⟨hanswers, c, hc, ?_, ?_, ?_, ?_⟩
  · rw [hpropagated]
    decide +kernel
  · rw [hbuild, hpropagated]
    decide +kernel
  · rw [hcheck, hbuild, hpropagated]
    decide +kernel
  · rw [hnative]
    decide +kernel

end RosRecipes.Manifest
