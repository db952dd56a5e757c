import RosRecipes.Proofs.Exchange
import RosRecipes.Proofs.Rosdep.Answers

/-!
# Requests to the dependency tool

The tool is asked for a name until it gives an answer that can be read as a lookup; that lookup is given from then on.
A `Request` is noted with what the tool was asked for it.

* The requests for one name in a sequence are failures, then perhaps one answer, and then reminders of that answer,
  whatever else is requested (`tool_is_asked_until_answered`).
-/

namespace RosRecipes.Rosdep

variable {σ : Type} {distribution name : String}

/-- An answer that is no lookup is an error, and remains that error. -/
theorem eq_of_lookupOfAnswer_error {answer : Except Error Output} {e : Error} (h : lookupOfAnswer answer = .error e) :
    answer = .error e := by
  unfold lookupOfAnswer at h
  split at h
  · cases h
  · split at h
    · cases h
    · cases h
      rfl
  · cases h
    rfl

/-! ### One request -/

/-- A request for the packages of a name. -/
structure Request where
  name : String
  /-- What the tool was asked for it. -/
  exchanges : List Exchange
  result : Except Error (Option NameSet)
  /-- What is remembered of the name afterwards. -/
  remembered : Option Lookup

/-- Resolves a name and notes the request. -/
def Database.request (db : Database) (runner : Runner σ) (name : String) : Action (σ × List Exchange) Request := do
  let before ← get
  let result ← Action.attempt (db.resolve runner.recorded name)
  let after ← get
  return {
    name
    exchanges := after.exchanges.drop before.exchanges.length
    result
    remembered := after.answers.get? name }

namespace Request

/-- The tool is asked, and its error is the result. -/
def failing (distribution name : String) (e : Error) : Request where
  name
  exchanges := [⟨question distribution name targetSystem, .error e⟩]
  result := .error e
  remembered := none

/-- The tool is asked, and its answer is read and remembered. -/
def answering (distribution name : String) (answer : Except Error Output) (lookup : Lookup) : Request where
  name
  exchanges := [⟨question distribution name targetSystem, answer⟩]
  result := .ok (lookup.packages? name)
  remembered := some lookup

/-- The tool is not asked, since it has answered before. -/
def reminding (name : String) (lookup : Lookup) : Request where
  name
  exchanges := []
  result := .ok (lookup.packages? name)
  remembered := some lookup

end Request

/-- The tool may give this answer to the question about a name, and that is what it means. -/
def Says (runner : Runner σ) (distribution name : String) (answer : Except Error Output)
    (meaning : Except Error Lookup) :
    Prop :=
  (∃ s t, (runner.run (question distribution name targetSystem) s t).1 = answer) ∧ lookupOfAnswer answer = meaning

variable {runner : Runner σ} {w w' : World (σ × List Exchange)}

theorem perform_request {db : Database} {result : Except Error (Option NameSet)}
    (h : (db.resolve runner.recorded name).perform w = (result, w')) :
    (db.request runner name).perform w =
      (.ok ⟨name, w'.exchanges.drop w.exchanges.length, result, w'.answers.get? name⟩, w') := by
  unfold Database.request
  rw [Action.perform_bind_ok (x := w) rfl, Action.perform_get,
    Action.perform_bind_ok (x := result) (by rw [Action.perform_attempt, h]), Action.perform_attempt, h,
    Action.perform_bind_ok (x := w') rfl]
  rfl

/-- What is remembered is given without asking. -/
theorem request_of_remembered {lookup : Lookup} (h : w.answers.get? name = some lookup) :
    ((Database.tool distribution).request runner name).perform w = (.ok (.reminding name lookup), w) := by
  have hresolve : ((Database.tool distribution).resolve runner.recorded name).perform w =
      (.ok (lookup.packages? name), w) := by
    unfold Database.resolve
    rw [Action.perform_bind, Database.perform_lookup_tool, h]
    rfl
  rw [perform_request hresolve, List.drop_length, h]
  rfl

/-- What is not remembered is asked once.  An error is the result, and nothing is remembered; any other answer is
remembered. -/
theorem request_of_unknown (runner : Runner σ) (distribution : String) (h : w.answers.get? name = none) :
    ∃ request w', ((Database.tool distribution).request runner name).perform w = (.ok request, w') ∧
      ((∃ e, Says runner distribution name (.error e) (.error e) ∧ request = .failing distribution name e ∧
          w'.answers = w.answers) ∨
        ∃ answer lookup, Says runner distribution name answer (.ok lookup) ∧
          request = .answering distribution name answer lookup ∧ w'.answers = w.answers.insert name lookup) := by
  -- The question changes nothing but the outside programs and the files.
  obtain ⟨answer, v, hcall, hsays, hexchanges, hanswers⟩ : ∃ answer v,
      (Action.call runner.recorded (question distribution name targetSystem)).perform w = (answer, v) ∧
      Says runner distribution name answer (lookupOfAnswer answer) ∧
      v.exchanges = w.exchanges ++ [⟨question distribution name targetSystem, answer⟩] ∧ v.answers = w.answers := by
    rw [Action.perform_call]
    exact ⟨_, _, rfl, ⟨⟨w.tools.1, w.files, rfl⟩, rfl⟩, rfl, rfl⟩
  cases hlookup : lookupOfAnswer answer with
  | error e =>
    rw [hlookup] at hsays
    have hresolve : ((Database.tool distribution).resolve runner.recorded name).perform w = (.error e, v) := by
      unfold Database.resolve
      rw [Action.perform_bind, Database.perform_lookup_tool, h, hcall]
      dsimp only
      rw [hlookup]
    obtain rfl := eq_of_lookupOfAnswer_error hlookup
    refine ⟨_, v, perform_request hresolve, .inl ⟨e, hsays, ?_, hanswers⟩⟩
    rw [hexchanges, List.drop_left, hanswers, h]
    rfl
  | ok lookup =>
    rw [hlookup] at hsays
    have hresolve : ((Database.tool distribution).resolve runner.recorded name).perform w =
        (.ok (lookup.packages? name), { v with answers := v.answers.insert name lookup }) := by
      unfold Database.resolve
      rw [Action.perform_bind, Database.perform_lookup_tool, h, hcall]
      dsimp only
      rw [hlookup]
      rfl
    refine ⟨_, _, perform_request hresolve, .inr ⟨answer, lookup, hsays, ?_, by rw [hanswers]⟩⟩
    show (⟨_, v.exchanges.drop _, _, (v.answers.insert name lookup).get? name⟩ : Request) = _
    rw [hexchanges, List.drop_left, Table.get?_insert, if_pos rfl]
    rfl

/-! ### Many requests -/

/-- The requests for one name, in their order: the tool fails, perhaps until it gives an answer, and then it is not
asked again. -/
inductive AskedUntilAnswered (runner : Runner σ) (distribution name : String) : List Request → Prop
  | failing (errors : List Error) (herrors : ∀ e ∈ errors, Says runner distribution name (.error e) (.error e)) :
    AskedUntilAnswered runner distribution name (errors.map (.failing distribution name))
  | answered (errors : List Error) (herrors : ∀ e ∈ errors, Says runner distribution name (.error e) (.error e))
    (answer : Except Error Output) (lookup : Lookup) (hanswer : Says runner distribution name answer (.ok lookup))
    (later : Nat) :
    AskedUntilAnswered runner distribution name
      (errors.map (.failing distribution name) ++
        .answering distribution name answer lookup :: List.replicate later (.reminding name lookup))

namespace AskedUntilAnswered

variable {requests : List Request}

/-- The tool may have failed once more before. -/
theorem cons_failing (h : AskedUntilAnswered runner distribution name requests) {e : Error}
    (he : Says runner distribution name (.error e) (.error e)) :
    AskedUntilAnswered runner distribution name (.failing distribution name e :: requests) := by
  cases h with
  | failing errors herrors => exact .failing (e :: errors) (List.forall_mem_cons.2 ⟨he, herrors⟩)
  | answered errors herrors answer lookup hanswer later =>
    exact .answered (e :: errors) (List.forall_mem_cons.2 ⟨he, herrors⟩) answer lookup hanswer later

/-- If the tool always answers alike, each request has the result of asking it. -/
theorem result_eq (h : AskedUntilAnswered runner distribution name requests)
    (hrun : ∀ c s t s' t', (runner.run c s t).1 = (runner.run c s' t').1) (u : World σ) {r : Request}
    (hr : r ∈ requests) :
    r.result = ((Database.ask runner distribution name targetSystem).perform u).1.map (·.packages? name) := by
  have hask : ∀ answer meaning, Says runner distribution name answer meaning →
      ((Database.ask runner distribution name targetSystem).perform u).1 = meaning := by
    rintro answer meaning ⟨⟨s, t, rfl⟩, rfl⟩
    rw [Database.perform_ask, Action.perform_call, hrun _ u.tools u.files s t]
  have hfailing : ∀ errors : List Error, (∀ e ∈ errors, Says runner distribution name (.error e) (.error e)) →
      r ∈ errors.map (Request.failing distribution name) →
      r.result = ((Database.ask runner distribution name targetSystem).perform u).1.map (·.packages? name) := by
    intro errors herrors hr
    obtain ⟨e, he, rfl⟩ := List.mem_map.1 hr
    rw [hask _ _ (herrors e he)]
    rfl
  cases h with
  | failing errors herrors => exact hfailing errors herrors hr
  | answered errors herrors answer lookup hanswer later =>
    rw [hask _ _ hanswer]
    rcases List.mem_append.1 hr with hr | hr
    · rw [hfailing errors herrors hr, hask _ _ hanswer]
    · rcases List.mem_cons.1 hr with rfl | hr
      · rfl
      · rw [List.eq_of_mem_replicate hr]
        rfl

end AskedUntilAnswered

/-- How the requests for a name go on, from what is remembered of it. -/
private def GoesOn (runner : Runner σ) (distribution name : String) : Option Lookup → List Request → Prop
  | none, requests => AskedUntilAnswered runner distribution name requests
  | some lookup, requests => ∃ n, requests = List.replicate n (.reminding name lookup)

/-- A request is the next one of its name, and changes nothing for other names. -/
private theorem request_goesOn (runner : Runner σ) (distribution name : String) (w : World (σ × List Exchange)) :
    ∃ request w', ((Database.tool distribution).request runner name).perform w = (.ok request, w') ∧
      request.name = name ∧
      (∀ requests, GoesOn runner distribution name (w'.answers.get? name) requests →
        GoesOn runner distribution name (w.answers.get? name) (request :: requests)) ∧
      ∀ other, other ≠ name → w'.answers.get? other = w.answers.get? other := by
  cases hmemory : w.answers.get? name with
  | some lookup =>
    refine ⟨_, w, request_of_remembered hmemory, rfl, fun requests h => ?_, fun _ _ => rfl⟩
    rw [hmemory] at h
    obtain ⟨n, rfl⟩ := h
    exact ⟨n + 1, rfl⟩
  | none =>
    obtain ⟨request, w', hperform, hcases⟩ := request_of_unknown runner distribution hmemory
    rcases hcases with ⟨e, he, rfl, hanswers⟩ | ⟨answer, lookup, hanswer, rfl, hanswers⟩
    · refine ⟨_, w', hperform, rfl, fun requests h => ?_, fun other _ => by rw [hanswers]⟩
      rw [hanswers, hmemory] at h
      exact AskedUntilAnswered.cons_failing h he
    · refine ⟨_, w', hperform, rfl, fun requests h => ?_, fun other hother => ?_⟩
      · rw [hanswers, Table.get?_insert, if_pos rfl] at h
        obtain ⟨n, rfl⟩ := h
        exact .answered [] nofun answer lookup hanswer n
      · rw [hanswers, Table.get?_insert, if_neg hother]

private theorem requests_goOn (runner : Runner σ) (distribution : String) (names : List String)
    (w : World (σ × List Exchange)) :
    ∃ requests, ((names.mapM ((Database.tool distribution).request runner)).perform w).1 = .ok requests ∧
      requests.map (·.name) = names ∧
      ∀ name, GoesOn runner distribution name (w.answers.get? name) (requests.filter (·.name = name)) := by
  induction names generalizing w with
  | nil =>
    refine ⟨[], rfl, rfl, fun name => ?_⟩
    cases w.answers.get? name with
    | none => exact .failing [] nofun
    | some lookup => exact ⟨0, rfl⟩
  | cons first names ih =>
    obtain ⟨request, w', hperform, rfl, hsame, hothers⟩ := request_goesOn runner distribution first w
    obtain ⟨requests, hrest, hnames, hrequests⟩ := ih w'
    refine ⟨request :: requests, ?_, by rw [List.map_cons, hnames], fun name => ?_⟩
    · rw [List.mapM_cons, Action.perform_bind, hperform]
      dsimp only
      rw [Action.perform_bind_ok hrest]
      rfl
    · by_cases hname : request.name = name
      · subst hname
        rw [List.filter_cons_of_pos (by simp)]
        exact hsame _ (hrequests request.name)
      · rw [List.filter_cons_of_neg (by simpa using hname), ← hothers name (Ne.symm hname)]
        exact hrequests name

/-- Names are requested one after the other, and nothing is remembered at first.  All requests are carried out.  The
tool is asked for a name at each request, until it gives an answer that can be read: until then each request has the
error of the tool as its result, and nothing is remembered.  From then on the tool is not asked for that name again, and
each request has the result of that answer.  So it is for each name, whatever else is requested in between.  If the
answers of the tool depend on the question only, each request has the result of asking the tool without a memory. -/
theorem tool_is_asked_until_answered (runner : Runner σ) (distribution : String) (names : List String) (w : World σ) :
    ∃ requests, ((names.mapM ((Database.tool distribution).request runner)).perform
        { w.withTools (w.tools, []) with answers := ∅ }).1 = .ok requests ∧
      requests.map (·.name) = names ∧
      (∀ name, AskedUntilAnswered runner distribution name (requests.filter (·.name = name))) ∧
      ((∀ c s t s' t', (runner.run c s t).1 = (runner.run c s' t').1) → ∀ u : World σ, ∀ r ∈ requests,
        r.result = ((Database.ask runner distribution r.name targetSystem).perform u).1.map (·.packages? r.name)) := by
  obtain ⟨requests, hperform, hnames, hrequests⟩ := requests_goOn runner distribution names
    { w.withTools (w.tools, []) with answers := ∅ }
  refine ⟨requests, hperform, hnames, hrequests, fun hrun u r hr => ?_⟩
  exact AskedUntilAnswered.result_eq (hrequests r.name) hrun u (List.mem_filter.2 ⟨hr, decide_eq_true rfl⟩)

/-- A tool that knows one name.  Every request for it has its package as the result, and the requests for another name
fail again and again. -/
theorem tool_is_asked_of_two_names :
    let runner : Runner Unit :=
      { run := fun c s t =>
          (if c.arguments.getLast? = some "libfoo-dev" then .ok { stdout := "#nix\nlibfoo\n" }
            else .error (.commandFailed c.line ⟨"."⟩ "exit status: 1" "Traceback"), s, t) }
    let w : World Unit := { tools := (), files := ⟨∅, []⟩ }
    let names := ["libfoo-dev", "broken", "libfoo-dev", "broken"]
    ∃ requests, ((names.mapM ((Database.tool "humble").request runner)).perform
        { w.withTools (w.tools, []) with answers := ∅ }).1 = .ok requests ∧
      requests.map (·.name) = names ∧
      AskedUntilAnswered runner "humble" "broken" (requests.filter (·.name = "broken")) ∧
      ∀ r ∈ requests, r.name = "libfoo-dev" → r.result = .ok (some (.ofList ["libfoo"])) := by
  intro runner w names
  obtain ⟨requests, hperform, hnames, hasked, hresults⟩ := tool_is_asked_until_answered runner "humble" names w
  refine ⟨requests, hperform, hnames, hasked "broken", fun r hr hname => ?_⟩
  have hrun : ∀ c s t s' t', (runner.run c s t).1 = (runner.run c s' t').1 := fun _ _ _ _ _ => rfl
  rw [hresults hrun w r hr, hname]
  rfl

end RosRecipes.Rosdep
