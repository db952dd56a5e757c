import RosRecipes.World

/-!
# Performing actions

What each way to build an action does to the world, and five ways to speak about an action as a whole, with rules
for the ways to build it.

* `Action.Gives I a r`: where `I` holds, the outcome of the action is `r`, and `I` is kept.
* `Action.Succeeds I a Q`: where `I` holds the action does not fail, what it gives satisfies `Q`, and `I` is kept.
* `Action.Yields I a Q`: where `I` holds it is kept, also when the action fails, and what the action gives satisfies
  `Q`.
* `Action.Confined I E a`: where `I` holds it is kept, also when the action fails, and then the error satisfies `E`.
* `Action.Coupled R a b`: from two worlds that `R` relates, the two actions have the same outcome, and they leave
  worlds that `R` relates.
-/

namespace RosRecipes.Action

variable {σ α β : Type}

/-! ### One step -/

section

variable (w : World σ)

@[simp] theorem perform_get : (get : Action σ (World σ)).perform w = (.ok w, w) := rfl

@[simp] theorem perform_set (w' : World σ) : (set w' : Action σ PUnit).perform w = (.ok ⟨⟩, w') := rfl

@[simp] theorem perform_attempt (a : Action σ α) :
    a.attempt.perform w = (.ok (a.perform w).1, (a.perform w).2) := rfl

@[simp] theorem perform_ofExcept (r : Except Error α) : (ofExcept r : Action σ α).perform w = (r, w) := by
  cases r <;> rfl

@[simp] theorem perform_ofFile (fault : FileFault → Error) (r : Except FileFault α) :
    (ofFile fault r : Action σ α).perform w = (r.mapError fault, w) := by
  cases r <;> rfl

/-- What follows an action starts in the world that the action leaves; an error ends it. -/
theorem perform_bind (a : Action σ α) (f : α → Action σ β) :
    (a >>= f).perform w =
      match a.perform w with
      | (.ok x, w') => (f x).perform w'
      | (.error e, w') => (.error e, w') := by
  unfold perform ExceptT.run StateT.run
  simp only [bind, ExceptT.bind, ExceptT.mk, StateT.bind, ExceptT.bindCont]
  rcases a w with ⟨_ | _, _⟩ <;> rfl

@[simp] theorem perform_call (runner : Runner σ) (c : Command) :
    (call runner c).perform w =
      ((runner.run c w.tools w.files).1,
        { w with tools := (runner.run c w.tools w.files).2.1, files := (runner.run c w.tools w.files).2.2 }) := by
  unfold call
  rw [perform_bind, perform_get]
  dsimp only
  rw [perform_bind, perform_set]
  exact perform_ofExcept _ _

theorem perform_changeFiles (fault : FileFault → Error) (change : FileTree → Except FileFault FileTree) :
    (changeFiles fault change).perform w =
      match change w.files with
      | .ok files => (.ok ⟨⟩, { w with files })
      | .error e => (.error (fault e), w) := by
  unfold changeFiles
  rw [perform_bind, perform_get]
  dsimp only
  rw [perform_bind, perform_ofFile]
  cases change w.files <;> rfl

variable {w}

theorem perform_bind_ok {a : Action σ α} {f : α → Action σ β} {x : α} (h : (a.perform w).1 = .ok x) :
    (a >>= f).perform w = (f x).perform (a.perform w).2 := by
  rw [perform_bind]
  rcases hw : a.perform w with ⟨r, w'⟩
  rw [hw] at h
  subst h
  rfl

theorem perform_bind_error {a : Action σ α} {f : α → Action σ β} {e : Error} (h : (a.perform w).1 = .error e) :
    (a >>= f).perform w = (.error e, (a.perform w).2) := by
  rw [perform_bind]
  rcases hw : a.perform w with ⟨r, w'⟩
  rw [hw] at h
  subst h
  rfl

end

/-! ### Outcomes -/

/-- Where `I` holds, the outcome of the action is `r`, and `I` is kept. -/
def Gives (I : World σ → Prop) (a : Action σ α) (r : Except Error α) : Prop :=
  ∀ w, I w → (a.perform w).1 = r ∧ I (a.perform w).2

section

variable {I : World σ → Prop}

theorem Gives.pure (x : α) : Gives I (Pure.pure x) (.ok x) := fun _ h => ⟨rfl, h⟩

theorem Gives.throw (e : Error) : Gives I (throw e : Action σ α) (.error e) := fun _ h => ⟨rfl, h⟩

theorem Gives.bind_ok {a : Action σ α} {f : α → Action σ β} {x : α} {r : Except Error β}
    (ha : Gives I a (.ok x)) (hf : Gives I (f x) r) : Gives I (a >>= f) r := by
  intro w h
  obtain ⟨hx, hw⟩ := ha w h
  rw [perform_bind_ok hx]
  exact hf _ hw

theorem Gives.bind_error {a : Action σ α} {f : α → Action σ β} {e : Error} (ha : Gives I a (.error e)) :
    Gives I (a >>= f) (.error e) := by
  intro w h
  obtain ⟨he, hw⟩ := ha w h
  rw [perform_bind_error he]
  exact ⟨rfl, hw⟩

theorem Gives.bind {a : Action σ α} {f : α → Action σ β} {r : Except Error α} {s : α → Except Error β}
    (ha : Gives I a r) (hf : ∀ x, Gives I (f x) (s x)) : Gives I (a >>= f) (r >>= s) := by
  cases r with
  | error e => exact ha.bind_error
  | ok x => exact ha.bind_ok (hf x)

/-- What reads the world may use what is known of it. -/
theorem Gives.get {f : World σ → Action σ α} {r : Except Error α} (h : ∀ w, I w → Gives I (f w) r) :
    Gives I (get >>= f) r := by
  intro w hw
  rw [perform_bind_ok (x := w) rfl]
  exact h w hw w hw

theorem Gives.modify {f : World σ → World σ} (h : ∀ w, I w → I (f w)) :
    Gives I (modify f : Action σ PUnit) (.ok ⟨⟩) :=
  fun w hw => ⟨rfl, h w hw⟩

/-- What is found is remembered before it is given. -/
theorem gives_remember {a : Action σ α} {r : Except Error α} {f : α → World σ → World σ} (ha : Gives I a r)
    (hf : ∀ x, r = .ok x → ∀ w, I w → I (f x w)) :
    Gives I (a >>= fun x => modify (f x) >>= fun _ => pure x : Action σ α) r := by
  cases r with
  | error e => exact ha.bind_error
  | ok x => exact ha.bind_ok (.bind_ok (.modify (hf x rfl)) (.pure x))

theorem Gives.foldlM {step : β → α → Action σ β} {s : β → α → Except Error β} (h : ∀ b a, Gives I (step b a) (s b a))
    (l : List α) (b : β) : Gives I (l.foldlM step b) (l.foldlM s b) := by
  induction l generalizing b with
  | nil => exact .pure b
  | cons a l ih =>
    rw [List.foldlM_cons, List.foldlM_cons]
    exact (h b a).bind ih

theorem Gives.mapM {f : α → Action σ β} {g : α → β} {l : List α} (h : ∀ x ∈ l, Gives I (f x) (.ok (g x))) :
    Gives I (l.mapM f) (.ok (l.map g)) := by
  induction l with
  | nil => exact .pure []
  | cons x l ih =>
    rw [List.mapM_cons]
    have hrest := ih fun y hy => h y (List.mem_cons_of_mem _ hy)
    exact (h x List.mem_cons_self).bind_ok (hrest.bind_ok (.pure _))

end

/-! ### Success -/

/-- Where `I` holds the action does not fail, what it gives satisfies `Q`, and `I` is kept. -/
def Succeeds (I : World σ → Prop) (a : Action σ α) (Q : α → Prop) : Prop :=
  ∀ w, I w → ∃ x, (a.perform w).1 = .ok x ∧ Q x ∧ I (a.perform w).2

section

variable {I : World σ → Prop} {P : β → Prop} {Q : α → Prop}

theorem Gives.succeeds {a : Action σ α} {x : α} (h : Gives I a (.ok x)) : Succeeds I a (· = x) :=
  fun w hw => ⟨x, (h w hw).1, rfl, (h w hw).2⟩

theorem Succeeds.pure {x : α} (h : Q x) : Succeeds I (Pure.pure x) Q := fun _ hw => ⟨x, rfl, h, hw⟩

theorem Succeeds.bind {a : Action σ α} {f : α → Action σ β} (ha : Succeeds I a Q)
    (hf : ∀ x, Q x → Succeeds I (f x) P) : Succeeds I (a >>= f) P := by
  intro w hw
  obtain ⟨x, hx, hQ, hkept⟩ := ha w hw
  rw [perform_bind_ok hx]
  exact hf x hQ _ hkept

/-- What reads the world may find any that `I` allows. -/
theorem Succeeds.get {f : World σ → Action σ α} (h : ∀ w, Succeeds I (f w) Q) : Succeeds I (get >>= f) Q := by
  intro w hw
  rw [perform_bind_ok (x := w) rfl]
  exact h w w hw

theorem Succeeds.modify {f : World σ → World σ} (h : ∀ w, I w → I (f w)) :
    Succeeds I (modify f : Action σ PUnit) fun _ => True :=
  fun w hw => ⟨⟨⟩, rfl, trivial, h w hw⟩

end

/-! ### Invariants -/

/-- The action keeps `I`, also when it fails, and what it gives satisfies `Q`. -/
def Yields (I : World σ → Prop) (a : Action σ α) (Q : α → Prop) : Prop :=
  ∀ w, I w → I (a.perform w).2 ∧ ∀ x, (a.perform w).1 = .ok x → Q x

section

variable {I : World σ → Prop} {P : β → Prop} {Q : α → Prop}

theorem Yields.pure {x : α} (h : Q x) : Yields I (Pure.pure x) Q := by
  refine fun w hw => ⟨hw, fun y hy => ?_⟩
  cases hy
  exact h

theorem Yields.throw (e : Error) : Yields I (throw e : Action σ α) Q :=
  fun w hw => ⟨hw, fun y hy => by cases hy⟩

theorem Yields.bind {a : Action σ α} {f : α → Action σ β} (ha : Yields I a Q) (hf : ∀ x, Q x → Yields I (f x) P) :
    Yields I (a >>= f) P := by
  intro w hw
  obtain ⟨hkept, hgives⟩ := ha w hw
  cases hr : (a.perform w).1 with
  | error e =>
    rw [perform_bind_error hr]
    exact ⟨hkept, fun y hy => by cases hy⟩
  | ok x =>
    rw [perform_bind_ok hr]
    exact hf x (hgives x hr) _ hkept

theorem Yields.mono {Q' : α → Prop} {a : Action σ α} (ha : Yields I a Q) (h : ∀ x, Q x → Q' x) : Yields I a Q' :=
  fun w hw => ⟨(ha w hw).1, fun x hx => h x ((ha w hw).2 x hx)⟩

theorem Yields.and {Q' : α → Prop} {a : Action σ α} (h : Yields I a Q) (h' : Yields I a Q') :
    Yields I a fun x => Q x ∧ Q' x :=
  fun w hw => ⟨(h w hw).1, fun x hx => ⟨(h w hw).2 x hx, (h' w hw).2 x hx⟩⟩

theorem Yields.attempt {a : Action σ α} (ha : Yields I a Q) : Yields I a.attempt fun r => ∀ x, r = .ok x → Q x := by
  refine fun w hw => ⟨(ha w hw).1, ?_⟩
  rintro r hr x rfl
  exact (ha w hw).2 x (Except.ok.inj hr)

/-- What a program answers to a command. -/
theorem Yields.call (hI : ∀ w tools files, I w → I { w with tools, files }) (runner : Runner σ) (c : Command) :
    Yields I (call runner c) fun output => ∃ s t, (runner.run c s t).1 = .ok output := by
  intro w hw
  rw [perform_call]
  exact ⟨hI w _ _ hw, fun output houtput => ⟨w.tools, w.files, houtput⟩⟩

theorem Yields.ofFile (fault : FileFault → Error) (r : Except FileFault α) :
    Yields I (ofFile fault r) fun _ => True := by
  cases r with
  | error e => exact .throw _
  | ok x => exact .pure trivial

theorem Yields.changeFiles (hI : ∀ w files, I w → I { w with files }) (fault : FileFault → Error)
    (change : FileTree → Except FileFault FileTree) : Yields I (changeFiles fault change) fun _ => True := by
  intro w hw
  rw [perform_changeFiles]
  cases change w.files with
  | error e => exact ⟨hw, fun _ _ => trivial⟩
  | ok files => exact ⟨hI w files hw, fun _ _ => trivial⟩

theorem Yields.mapM {f : α → Action σ β} (h : ∀ x, Yields I (f x) P) (l : List α) :
    Yields I (l.mapM f) fun ys => ∀ y ∈ ys, P y := by
  induction l with
  | nil => exact .pure fun y hy => by cases hy
  | cons x l ih =>
    rw [List.mapM_cons]
    refine (h x).bind fun y hy => ih.bind fun ys hys => .pure fun z hz => ?_
    rcases List.mem_cons.1 hz with rfl | hz
    · exact hy
    · exact hys z hz

theorem forM_cons (f : α → Action σ Unit) (x : α) (l : List α) :
    (x :: l).forM f = f x >>= fun _ => l.forM f := rfl

theorem Yields.forM {f : α → Action σ Unit} (h : ∀ x, Yields I (f x) fun _ => True) (l : List α) :
    Yields I (l.forM f) fun _ => True := by
  induction l with
  | nil => exact .pure trivial
  | cons x l ih =>
    rw [forM_cons]
    exact (h x).bind fun _ _ => ih

/-- What reads the world may use what is known of it. -/
theorem Yields.get {f : World σ → Action σ α} (h : ∀ w, I w → Yields I (f w) Q) : Yields I (get >>= f) Q := by
  intro w hw
  rw [perform_bind_ok (x := w) rfl]
  exact h w hw w hw

theorem Yields.modify {f : World σ → World σ} (h : ∀ w, I w → I (f w)) :
    Yields I (modify f : Action σ PUnit) fun _ => True :=
  fun w hw => ⟨h w hw, fun _ _ => trivial⟩

end

/-! ### Failures -/

/-- The action keeps `I`, also when it fails, and the error with which it fails satisfies `E`. -/
def Confined (I : World σ → Prop) (E : Error → Prop) (a : Action σ α) : Prop :=
  ∀ w, I w → I (a.perform w).2 ∧ ∀ e, (a.perform w).1 = .error e → E e

section

variable {I : World σ → Prop} {E : Error → Prop}

theorem Confined.after {a : Action σ α} {r : Except Error α} {w w' : World σ} (ha : Confined I E a)
    (hperform : a.perform w = (r, w')) (hw : I w) : I w' := by
  have hkept := (ha w hw).1
  rw [hperform] at hkept
  exact hkept

theorem Confined.pure (x : α) : Confined I E (Pure.pure x : Action σ α) := fun _ hw => ⟨hw, nofun⟩

theorem Confined.throw {e : Error} (h : E e) : Confined I E (throw e : Action σ α) := by
  refine fun w hw => ⟨hw, fun e' he' => ?_⟩
  cases he'
  exact h

theorem Confined.ofExcept {r : Except Error α} (h : ∀ e, r = .error e → E e) :
    Confined I E (ofExcept r : Action σ α) := by
  cases r with
  | error e => exact .throw (h e rfl)
  | ok x => exact .pure x

theorem Confined.bind {a : Action σ α} {f : α → Action σ β} (ha : Confined I E a) (hf : ∀ x, Confined I E (f x)) :
    Confined I E (a >>= f) := by
  intro w hw
  obtain ⟨hkept, herror⟩ := ha w hw
  cases hr : (a.perform w).1 with
  | error e =>
    rw [perform_bind_error hr]
    refine ⟨hkept, fun e' he' => herror e' ?_⟩
    cases he'
    exact hr
  | ok x =>
    rw [perform_bind_ok hr]
    exact hf x _ hkept

theorem Confined.ite {c : Prop} [Decidable c] {a b : Action σ α} (ha : c → Confined I E a)
    (hb : ¬ c → Confined I E b) : Confined I E (if c then a else b) := by
  by_cases hc : c
  · rw [if_pos hc]
    exact ha hc
  · rw [if_neg hc]
    exact hb hc

/-- What follows an attempt may use what is known of the failures. -/
theorem Confined.attempt_bind {a : Action σ α} {f : Except Error α → Action σ β} (ha : Confined I E a)
    (hf : ∀ r, (∀ e, r = .error e → E e) → Confined I E (f r)) : Confined I E (a.attempt >>= f) := by
  intro w hw
  obtain ⟨hkept, herror⟩ := ha w hw
  rw [perform_bind_ok (x := (a.perform w).1) rfl]
  exact hf _ herror _ hkept

theorem Confined.get {f : World σ → Action σ α} (h : ∀ w, I w → Confined I E (f w)) : Confined I E (get >>= f) := by
  intro w hw
  rw [perform_bind_ok (x := w) rfl]
  exact h w hw w hw

theorem Confined.modify {f : World σ → World σ} (h : ∀ w, I w → I (f w)) :
    Confined I E (modify f : Action σ PUnit) :=
  fun w hw => ⟨h w hw, nofun⟩

theorem Confined.remark (hI : ∀ w log, I w → I { w with log }) (level : Level) (text : String) :
    Confined I E (remark level text : Action σ Unit) :=
  .modify fun w hw => hI w _ hw

theorem Confined.call (hI : ∀ w tools files, I w → I { w with tools, files }) {runner : Runner σ} {c : Command}
    (hE : ∀ s t e, (runner.run c s t).1 = .error e → E e) : Confined I E (call runner c) := by
  intro w hw
  rw [perform_call]
  exact ⟨hI w _ _ hw, hE _ _⟩

theorem Confined.ofFile {fault : FileFault → Error} {r : Except FileFault α} (h : ∀ e, E (fault e)) :
    Confined I E (ofFile fault r) := by
  cases r with
  | error e => exact .throw (h e)
  | ok x => exact .pure x

theorem Confined.changeFiles (hI : ∀ w files, I w → I { w with files }) {fault : FileFault → Error}
    {change : FileTree → Except FileFault FileTree} (h : ∀ e, E (fault e)) :
    Confined I E (changeFiles fault change) := by
  intro w hw
  rw [perform_changeFiles]
  cases change w.files with
  | error e => exact ⟨hw, fun _ he => by cases he; exact h e⟩
  | ok files => exact ⟨hI w files hw, nofun⟩

theorem Confined.foldlM {f : β → α → Action σ β} (h : ∀ b x, Confined I E (f b x)) (l : List α) (b : β) :
    Confined I E (l.foldlM f b) := by
  induction l generalizing b with
  | nil => exact .pure b
  | cons x l ih =>
    rw [List.foldlM_cons]
    exact (h b x).bind ih

theorem Confined.forM {f : α → Action σ Unit} (h : ∀ x, Confined I E (f x)) (l : List α) : Confined I E (l.forM f) := by
  induction l with
  | nil => exact .pure ()
  | cons x l ih =>
    rw [forM_cons]
    exact (h x).bind fun _ => ih

theorem Confined.mapM {f : α → Action σ β} (h : ∀ x, Confined I E (f x)) (l : List α) : Confined I E (l.mapM f) := by
  induction l with
  | nil => exact .pure []
  | cons x l ih =>
    rw [List.mapM_cons]
    exact (h x).bind fun y => ih.bind fun ys => .pure (y :: ys)

end

section

variable {w w' : World σ} {e : Error}

/-- Both of two steps have succeeded. -/
theorem bind_ok_cases {a : Action σ α} {f : α → Action σ β} {y : β} (h : (a >>= f).perform w = (.ok y, w')) :
    ∃ x v, a.perform w = (.ok x, v) ∧ (f x).perform v = (.ok y, w') := by
  rw [perform_bind] at h
  rcases ha : a.perform w with ⟨e' | x, v⟩
  · rw [ha] at h
    cases h
  · rw [ha] at h
    exact ⟨x, v, rfl, h⟩

/-- Either of two steps may have failed. -/
theorem bind_error_cases {a : Action σ α} {f : α → Action σ β} (h : (a >>= f).perform w = (.error e, w')) :
    a.perform w = (.error e, w') ∨ ∃ x v, a.perform w = (.ok x, v) ∧ (f x).perform v = (.error e, w') := by
  rw [perform_bind] at h
  rcases ha : a.perform w with ⟨e' | x, v⟩
  · rw [ha] at h
    cases h
    exact .inl rfl
  · rw [ha] at h
    exact .inr ⟨x, v, rfl, h⟩

/-- Where a loop fails, all steps before have succeeded. -/
theorem foldlM_error {f : β → α → Action σ β} {l : List α} {b : β}
    (h : (l.foldlM f b).perform w = (.error e, w')) :
    ∃ before x after b' v, l = before ++ x :: after ∧ (before.foldlM f b).perform w = (.ok b', v) ∧
      (f b' x).perform v = (.error e, w') := by
  induction l generalizing b w with
  | nil => cases h
  | cons x l ih =>
    rw [List.foldlM_cons] at h
    rcases bind_error_cases h with hx | ⟨b', v, hx, hrest⟩
    · exact ⟨[], x, l, b, w, rfl, rfl, hx⟩
    · obtain ⟨before, y, after, b'', v', rfl, hbefore, hy⟩ := ih hrest
      refine ⟨x :: before, y, after, b'', v', rfl, ?_, hy⟩
      rw [List.foldlM_cons, perform_bind_ok (congrArg Prod.fst hx), hx]
      exact hbefore

theorem forM_error {f : α → Action σ Unit} {l : List α} (h : (l.forM f).perform w = (.error e, w')) :
    ∃ before x after v, l = before ++ x :: after ∧ (before.forM f).perform w = (.ok (), v) ∧
      (f x).perform v = (.error e, w') := by
  induction l generalizing w with
  | nil => cases h
  | cons x l ih =>
    rw [forM_cons] at h
    rcases bind_error_cases h with hx | ⟨⟨⟩, v, hx, hrest⟩
    · exact ⟨[], x, l, w, rfl, rfl, hx⟩
    · obtain ⟨before, y, after, v', rfl, hbefore, hy⟩ := ih hrest
      refine ⟨x :: before, y, after, v', rfl, ?_, hy⟩
      rw [forM_cons, perform_bind_ok (congrArg Prod.fst hx), hx]
      exact hbefore

section

variable {P : β → World σ → Prop} {f : β → α → Action σ β} {l : List α} {b b' : β}

/-- What every step of a loop keeps, the loop keeps. -/
theorem foldlM_ok_keeps (hkeep : ∀ y ∈ l, ∀ b u b' v, P b u → (f b y).perform u = (.ok b', v) → P b' v) (hb : P b w)
    (h : (l.foldlM f b).perform w = (.ok b', w')) : P b' w' := by
  induction l generalizing b w with
  | nil =>
    cases h
    exact hb
  | cons y l ih =>
    rw [List.foldlM_cons] at h
    obtain ⟨b₁, v, hy, hrest⟩ := bind_ok_cases h
    have hnext := hkeep y List.mem_cons_self b w b₁ v hb hy
    exact ih (fun z hz => hkeep z (List.mem_cons_of_mem _ hz)) hnext hrest

/-- What one step of a loop brings about and the others keep holds after the loop. -/
theorem foldlM_ok_of_mem {x : α} (hx : x ∈ l) (hstart : ∀ b u b' v, (f b x).perform u = (.ok b', v) → P b' v)
    (hkeep : ∀ y ∈ l, ∀ b u b' v, P b u → (f b y).perform u = (.ok b', v) → P b' v)
    (h : (l.foldlM f b).perform w = (.ok b', w')) : P b' w' := by
  induction l generalizing b w with
  | nil => cases hx
  | cons y l ih =>
    rw [List.foldlM_cons] at h
    obtain ⟨b₁, v, hy, hrest⟩ := bind_ok_cases h
    have hkeep' := fun z (hz : z ∈ l) => hkeep z (List.mem_cons_of_mem _ hz)
    rcases List.mem_cons.1 hx with rfl | hmem
    · exact foldlM_ok_keeps hkeep' (hstart b w b₁ v hy) hrest
    · exact ih hmem hkeep' hrest

end

end

/-! ### Two worlds -/

/-- From related worlds two actions have the same outcome, and they leave related worlds. -/
def Coupled (R : World σ → World σ → Prop) (a b : Action σ α) : Prop :=
  ∀ u v, R u v → (a.perform u).1 = (b.perform v).1 ∧ R (a.perform u).2 (b.perform v).2

section

variable {R : World σ → World σ → Prop}

theorem Coupled.pure (x : α) : Coupled R (Pure.pure x) (Pure.pure x) := fun _ _ h => ⟨rfl, h⟩

theorem Coupled.throw (e : Error) : Coupled R (throw e : Action σ α) (throw e) := fun _ _ h => ⟨rfl, h⟩

theorem Coupled.ofExcept (r : Except Error α) : Coupled R (ofExcept r) (ofExcept r) := by
  intro u v h
  rw [perform_ofExcept, perform_ofExcept]
  exact ⟨rfl, h⟩

/-- What follows may use what is known of the outcome. -/
theorem Coupled.bind_of {P : α → Prop} {a b : Action σ α} {f g : α → Action σ β} (ha : Coupled R a b)
    (hP : ∀ u v x, R u v → (b.perform v).1 = .ok x → P x) (hf : ∀ x, P x → Coupled R (f x) (g x)) :
    Coupled R (a >>= f) (b >>= g) := by
  intro u v h
  obtain ⟨hr, hR⟩ := ha u v h
  cases hb : (b.perform v).1 with
  | error e =>
    rw [hb] at hr
    rw [perform_bind_error hr, perform_bind_error hb]
    exact ⟨rfl, hR⟩
  | ok x =>
    rw [hb] at hr
    rw [perform_bind_ok hr, perform_bind_ok hb]
    exact hf x (hP u v x h hb) _ _ hR

theorem Coupled.bind {a b : Action σ α} {f g : α → Action σ β} (ha : Coupled R a b)
    (hf : ∀ x, Coupled R (f x) (g x)) : Coupled R (a >>= f) (b >>= g) :=
  ha.bind_of (P := fun _ => True) (fun _ _ _ _ _ => trivial) fun x _ => hf x

/-- What reads the world has to read the same in both. -/
theorem Coupled.get {f g : World σ → Action σ α} (h : ∀ u v, R u v → Coupled R (f u) (g v)) :
    Coupled R (get >>= f) (get >>= g) := by
  intro u v hR
  rw [perform_bind_ok (x := u) rfl, perform_bind_ok (x := v) rfl]
  exact h u v hR u v hR

theorem Coupled.modify {f g : World σ → World σ} (h : ∀ u v, R u v → R (f u) (g v)) :
    Coupled R (modify f : Action σ PUnit) (modify g) :=
  fun u v hR => ⟨rfl, h u v hR⟩

/-- What is found in both is remembered in both before it is given. -/
theorem coupled_remember {a : Action σ α} {f : α → World σ → World σ} (ha : Coupled R a a)
    (hf : ∀ x u v, R u v → R (f x u) (f x v)) :
    Coupled R (a >>= fun x => modify (f x) >>= fun _ => pure x : Action σ α)
      (a >>= fun x => modify (f x) >>= fun _ => pure x) :=
  ha.bind fun x => .bind (.modify (hf x)) fun _ => .pure x

/-- What gives the same from either side is coupled. -/
theorem Gives.coupled {I J : World σ → Prop} {a : Action σ α} {r : Except Error α} (hI : Gives I a r)
    (hJ : Gives J a r) : Coupled (fun u v => I u ∧ J v) a a :=
  fun u v huv => ⟨(hI u huv.1).1.trans (hJ v huv.2).1.symm, (hI u huv.1).2, (hJ v huv.2).2⟩

theorem Coupled.mapM {f g : α → Action σ β} (h : ∀ x, Coupled R (f x) (g x)) (l : List α) :
    Coupled R (l.mapM f) (l.mapM g) := by
  induction l with
  | nil => exact .pure []
  | cons x l ih =>
    rw [List.mapM_cons, List.mapM_cons]
    exact (h x).bind fun y => ih.bind fun ys => .pure (y :: ys)

theorem Coupled.foldlM {f g : β → α → Action σ β} (h : ∀ b x, Coupled R (f b x) (g b x)) (l : List α) (b : β) :
    Coupled R (l.foldlM f b) (l.foldlM g b) := by
  induction l generalizing b with
  | nil => exact .pure b
  | cons x l ih =>
    rw [List.foldlM_cons, List.foldlM_cons]
    exact (h b x).bind ih

end

end RosRecipes.Action
