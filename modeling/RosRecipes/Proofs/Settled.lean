import RosRecipes.Proofs.Action
import RosRecipes.Proofs.FileTree.Basic

/-!
# Settled actions

A question to an outside program may change the state of the programs, perhaps some files, and what has been said
so far; nothing else of the world changes.  An action is settled if it only does that, and learns the same in every
world (`Action.Settled`).  The relation `T` limits what may happen to the files.

* `Settled.call` is about a program whose answer depends on the command only.
* `Settled.coupled`: a settled action couples all worlds in which nothing else is related.
-/

namespace RosRecipes

variable {σ α β : Type}

/-- The worlds differ at most in the outside programs, in the remarks, and in their files as `T` allows. -/
structure World.Near (T : FileTree → FileTree → Prop) (u v : World σ) : Prop where
  rest : u = { v with tools := u.tools, files := u.files, log := u.log }
  files : T u.files v.files

namespace World.Near

variable {T : FileTree → FileTree → Prop} {u v w : World σ}

theorem trans (hT : Equivalence T) (h : u.Near T v) (h' : v.Near T w) : u.Near T w := by
  refine ⟨?_, hT.trans h.files h'.files⟩
  rw [h.rest, h'.rest]

theorem mono {T' : FileTree → FileTree → Prop} (h : u.Near T v) (hT : ∀ t t', T t t' → T' t t') : u.Near T' v :=
  ⟨h.rest, hT _ _ h.files⟩

theorem answers (h : u.Near T v) : u.answers = v.answers := by rw [h.rest]

theorem runCache (h : u.Near T v) : u.runCache = v.runCache := by rw [h.rest]

theorem storedCache (h : u.Near T v) : u.storedCache = v.storedCache := by rw [h.rest]

theorem patches (h : u.Near T v) : u.patches = v.patches := by rw [h.rest]

theorem mode (h : u.Near T v) : u.mode = v.mode := by rw [h.rest]

theorem outOfDate (h : u.Near T v) : u.outOfDate = v.outOfDate := by rw [h.rest]

theorem emitted (h : u.Near T v) : u.emitted = v.emitted := by rw [h.rest]

end World.Near

namespace Action

/-- The action learns the same in every world, and changes nothing but the outside programs, the remarks, and files
as `T` allows. -/
def Settled (T : FileTree → FileTree → Prop) (a : Action σ α) : Prop :=
  ∀ u v, (a.perform u).1 = (a.perform v).1 ∧ (a.perform u).2.Near T u

variable {T : FileTree → FileTree → Prop}

theorem Settled.pure (hT : Equivalence T) (x : α) : Settled T (Pure.pure x : Action σ α) :=
  fun u _ => ⟨rfl, rfl, hT.refl u.files⟩

theorem Settled.throw (hT : Equivalence T) (e : Error) : Settled T (throw e : Action σ α) :=
  fun u _ => ⟨rfl, rfl, hT.refl u.files⟩

theorem Settled.ofExcept (hT : Equivalence T) (r : Except Error α) : Settled T (ofExcept r : Action σ α) := by
  intro u v
  rw [perform_ofExcept, perform_ofExcept]
  exact ⟨rfl, rfl, hT.refl u.files⟩

theorem Settled.remark (hT : Equivalence T) (level : Level) (text : String) :
    Settled T (remark level text : Action σ Unit) :=
  fun u _ => ⟨rfl, rfl, hT.refl u.files⟩

theorem Settled.bind (hT : Equivalence T) {a : Action σ α} {f : α → Action σ β} (ha : Settled T a)
    (hf : ∀ x, Settled T (f x)) : Settled T (a >>= f) := by
  intro u v
  have hr := (ha u v).1
  have hu := (ha u v).2
  cases hv : (a.perform v).1 with
  | error e =>
    rw [hv] at hr
    rw [perform_bind_error hr, perform_bind_error hv]
    exact ⟨rfl, hu⟩
  | ok x =>
    rw [hv] at hr
    rw [perform_bind_ok hr, perform_bind_ok hv]
    have hx := hf x (a.perform u).2 (a.perform v).2
    exact ⟨hx.1, hx.2.trans hT hu⟩

theorem Settled.attempt {a : Action σ α} (h : Settled T a) : Settled T a.attempt :=
  fun u v => ⟨congrArg Except.ok (h u v).1, (h u v).2⟩

/-- Asking a program whose answer depends on the command only. -/
theorem Settled.call {runner : Runner σ} {c : Command}
    (hanswer : ∀ s t s' t', (runner.run c s t).1 = (runner.run c s' t').1)
    (hfiles : ∀ s t, T (runner.run c s t).2.2 t) : Settled T (call runner c) := by
  intro u v
  rw [perform_call, perform_call]
  exact ⟨hanswer _ _ _ _, rfl, hfiles _ _⟩

/-- A settled action couples worlds as long as nothing is related that it may change. -/
theorem Settled.coupled {R : World σ → World σ → Prop} {a : Action σ α} (h : Settled T a)
    (hR : ∀ u v u' v', R u v → u'.Near T u → v'.Near T v → R u' v') : Coupled R a a :=
  fun u v huv => ⟨(h u v).1, hR _ _ _ _ huv (h u v).2 (h v u).2⟩

/-- A settled action keeps what does not depend on anything that it may change. -/
theorem Settled.yields {I : World σ → Prop} {a : Action σ α} (h : Settled T a)
    (hI : ∀ w w', I w → w'.Near T w → I w') : Yields I a fun x => ∀ w, (a.perform w).1 = .ok x := by
  refine fun w hw => ⟨hI _ _ hw (h w w).2, fun x hx w' => ?_⟩
  rw [(h w' w).1, hx]

/-- A settled action gives in every world what it gives in one. -/
theorem Settled.gives {I : World σ → Prop} {a : Action σ α} (h : Settled T a)
    (hI : ∀ w w', I w → w'.Near T w → I w') (u : World σ) : Gives I a (a.perform u).1 :=
  fun w hw => ⟨(h w u).1, hI _ _ hw (h w w).2⟩

end Action

end RosRecipes
