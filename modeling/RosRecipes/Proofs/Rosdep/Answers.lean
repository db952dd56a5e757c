import RosRecipes.Proofs.Action
import RosRecipes.Rosdep.Database

/-!
# Databases that answer

A database answers with `f` if every sequence of lookups succeeds and each name is answered with its value under
`f` (`Database.Answers`).  One lookup keeps that (`Database.Answers.lookup`).

* No database, fixed entries and rules always answer (`Database.answers_of_knows`).
* The tool answers if what it is asked does not change what it says, and the answers that are remembered are its own
  (`Database.answers_tool`).
-/

namespace RosRecipes.Rosdep.Database

variable {σ : Type} {db : Database} {runner : Runner σ} {f : String → Lookup} {w : World σ}

/-- Whatever names are looked up one after the other, each is answered with its value under `f`. -/
def Answers (db : Database) (runner : Runner σ) (f : String → Lookup) (w : World σ) : Prop :=
  ∀ names : List String,
    ((names.mapM fun name => db.lookup runner name targetSystem).perform w).1 = .ok (names.map f)

/-- A lookup gives the answer, and the answers to come stay the same. -/
theorem Answers.lookup (name : String) :
    Action.Gives (db.Answers runner f) (db.lookup runner name targetSystem) (.ok (f name)) := by
  intro w h
  have hfirst : ((db.lookup runner name targetSystem).perform w).1 = .ok (f name) := by
    have hone := h [name]
    cases hr : ((db.lookup runner name targetSystem).perform w).1 with
    | error e =>
      rw [List.mapM_cons, Action.perform_bind_error hr] at hone
      cases hone
    | ok x =>
      rw [List.mapM_cons, Action.perform_bind_ok hr] at hone
      cases hone
      rfl
  refine ⟨hfirst, fun names => ?_⟩
  have hmore := h (name :: names)
  rw [List.mapM_cons, Action.perform_bind_ok hfirst] at hmore
  cases hr : ((names.mapM fun name => db.lookup runner name targetSystem).perform
      ((db.lookup runner name targetSystem).perform w).2).1 with
  | error e =>
    rw [Action.perform_bind_error hr] at hmore
    cases hmore
  | ok xs =>
    rw [Action.perform_bind_ok hr] at hmore
    cases hmore
    rfl

/-- The packages of a name come from its answer. -/
theorem Answers.resolve (name : String) :
    Action.Gives (db.Answers runner f) (db.resolve runner name) (.ok ((f name).packages? name)) :=
  (Answers.lookup name).bind fun lookup => .pure (lookup.packages? name)

/-- Answers follow from an invariant under which each lookup gives its answer. -/
theorem answers_of_gives {I : World σ → Prop}
    (h : ∀ name, Action.Gives I (db.lookup runner name targetSystem) (.ok (f name))) (hw : I w) :
    db.Answers runner f w := by
  intro names
  suffices hall : Action.Gives I (names.mapM fun name => db.lookup runner name targetSystem) (.ok (names.map f)) from
    (hall w hw).1
  induction names with
  | nil => exact .pure []
  | cons name names ih =>
    rw [List.mapM_cons]
    exact (h name).bind fun lookup => ih.bind fun lookups => .pure (lookup :: lookups)

/-! ### Databases without a tool -/

/-- What a database knows by itself. -/
def known? : Database → Option (String → Lookup)
  | .nothing => some fun _ => .unknown
  | .fixed entries => some fun name =>
    match entries.get? name with
    | none => .unknown
    | some none => .unsatisfiable
    | some (some packages) => .found packages
  | .rules document => some fun name => document.lookup name targetSystem
  | .tool _ => none

/-- What a database knows by itself is its answer, and the world stays as it is. -/
theorem lookup_of_knows (h : db.known? = some f) (name : String) :
    (db.lookup runner name targetSystem : Action σ Lookup) = pure (f name) := by
  match db with
  | .nothing =>
    cases h
    rfl
  | .fixed entries =>
    cases h
    unfold Database.lookup
    dsimp only
    cases entries.get? name with
    | none => rfl
    | some packages =>
      cases packages with
      | none => rfl
      | some packages => rfl
  | .rules document =>
    cases h
    rfl
  | .tool _ => cases h

/-- A database that does not know by itself asks the tool. -/
theorem knows_or_tool (db : Database) :
    (∃ f, db.known? = some f) ∨ ∃ distribution, db = .tool distribution := by
  cases db with
  | nothing => exact .inl ⟨_, rfl⟩
  | fixed entries => exact .inl ⟨_, rfl⟩
  | rules document => exact .inl ⟨_, rfl⟩
  | tool distribution => exact .inr ⟨distribution, rfl⟩

/-- A database that needs no tool always answers. -/
theorem answers_of_knows (h : db.known? = some f) : db.Answers runner f w := by
  refine answers_of_gives (I := fun _ => True) ?_ trivial
  intro name
  rw [lookup_of_knows h]
  exact .pure _

/-! ### The tool -/

/-- What asking the tool gives is what its answer means. -/
theorem perform_ask (runner : Runner σ) (distribution name system : String) (w : World σ) :
    (ask runner distribution name system).perform w =
      (lookupOfAnswer ((Action.call runner (question distribution name system)).perform w).1,
        ((Action.call runner (question distribution name system)).perform w).2) := by
  unfold ask
  rw [Action.perform_bind_ok (x := _) (by rw [Action.perform_attempt]), Action.perform_ofExcept, Action.perform_attempt]

/-- What is remembered is given, and nothing changes.  Otherwise the tool is asked, and its answer is remembered if it
gives a lookup. -/
theorem perform_lookup_tool (runner : Runner σ) (distribution name system : String) (w : World σ) :
    ((Database.tool distribution).lookup runner name system).perform w =
      match w.answers.get? name with
      | some lookup => (.ok lookup, w)
      | none =>
        let answered := (Action.call runner (question distribution name system)).perform w
        match lookupOfAnswer answered.1 with
        | .ok lookup => (.ok lookup, { answered.2 with answers := answered.2.answers.insert name lookup })
        | .error e => (.error e, answered.2) := by
  unfold Database.lookup
  dsimp only
  rw [Action.perform_bind_ok (x := w) rfl, Action.perform_get]
  cases w.answers.get? name with
  | some lookup => rfl
  | none =>
    dsimp only
    rw [Action.perform_bind, perform_ask]
    cases lookupOfAnswer ((Action.call runner (question distribution name system)).perform w).1 with
    | error e => rfl
    | ok lookup => rfl

/-- The tool answers if its answers depend on the name only, and so do those that are remembered. -/
theorem answers_tool {distribution : String}
    (hrun : ∀ name s t, lookupOfAnswer (runner.run (question distribution name targetSystem) s t).1 = .ok (f name))
    (hmemo : ∀ name lookup, w.answers.get? name = some lookup → lookup = f name) :
    (Database.tool distribution).Answers runner f w := by
  refine answers_of_gives (I := fun w => ∀ name lookup, w.answers.get? name = some lookup → lookup = f name) ?_ hmemo
  intro name w hw
  rw [perform_lookup_tool]
  cases hget : w.answers.get? name with
  | some lookup => exact ⟨congrArg Except.ok (hw name lookup hget), hw⟩
  | none =>
    rw [Action.perform_call]
    dsimp only
    rw [hrun]
    refine ⟨rfl, fun other found hother => ?_⟩
    -- What is remembered from now on is either the answer just given or an earlier one.
    rw [Table.get?_insert] at hother
    split at hother
    · next heq =>
      cases hother
      rw [heq]
    · exact hw other found hother

end RosRecipes.Rosdep.Database
