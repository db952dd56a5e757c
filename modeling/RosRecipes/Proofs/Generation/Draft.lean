import RosRecipes.Proofs.Generation.Emission
import RosRecipes.Proofs.Generation.Preparation

/-!
# Emitting a package

A package is emitted with its recipe first and its patches after it, each of which claims its destination before
(`perform_emitPatch`).  If nothing fails, just these files are emitted (`emitted_emitDraft`), and if it does, either a
file was refused or a destination had been claimed (`refused_of_emitDraft`).  What is remembered of names and sources
stays as it is (`sameMemory_emitDraft`).

* A package that is emitted where the tree has grown and more was claimed is emitted where it was before
  (`emitDraft_behind`).
-/

namespace RosRecipes

variable {σ : Type} {u v w w' : World σ} {p : Path} {content : ByteArray}

namespace Action

/-- Emitting changes nothing that is remembered. -/
theorem alike_emit (p : Path) (content : ByteArray) (w : World σ) : ((emit p content).perform w).2.Alike w := by
  cases hmode : w.mode with
  | write =>
    rcases emit_write hmode p content with ⟨t, hwrote, hperform⟩ | ⟨e, t, hextends, hperform⟩
    · rw [hperform]
      exact ⟨hwrote.grows.home.symm, rfl, rfl, rfl, rfl⟩
    · rw [hperform]
      exact ⟨hextends.home.symm, rfl, rfl, rfl, rfl⟩
  | compare =>
    obtain ⟨log, printed, hperform⟩ := emit_compare hmode p content
    rw [hperform]
    exact ⟨rfl, rfl, rfl, rfl, rfl⟩

/-- An emission is recorded, whatever comes of it. -/
theorem emitted_emit (p : Path) (content : ByteArray) (w : World σ) :
    ((emit p content).perform w).2.emitted =
        w.emitted ++ [⟨p, content, !((emit p content).perform w).1.isOk⟩] ∧
      ((emit p content).perform w).2.mode = w.mode := by
  cases hmode : w.mode with
  | write =>
    rcases emit_write hmode p content with ⟨t, -, hperform⟩ | ⟨e, t, -, hperform⟩
    · rw [hperform]
      exact ⟨rfl, hmode⟩
    · rw [hperform]
      exact ⟨rfl, hmode⟩
  | compare =>
    obtain ⟨log, printed, hperform⟩ := emit_compare hmode p content
    rw [hperform]
    exact ⟨rfl, hmode⟩

end Action

/-! ### Memory -/

/-- The worlds remember the same of names and sources, and they emit in the same mode. -/
structure World.SameMemory (u v : World σ) : Prop where
  answers : u.answers = v.answers
  runCache : u.runCache = v.runCache
  storedCache : u.storedCache = v.storedCache
  mode : u.mode = v.mode

theorem World.SameMemory.refl (w : World σ) : w.SameMemory w := ⟨rfl, rfl, rfl, rfl⟩

theorem World.SameMemory.trans (h : u.SameMemory v) (h' : v.SameMemory w) : u.SameMemory w :=
  ⟨h.answers.trans h'.answers, h.runCache.trans h'.runCache, h.storedCache.trans h'.storedCache, h.mode.trans h'.mode⟩

theorem sameMemory_emit (p : Path) (content : ByteArray) (w : World σ) :
    ((Action.emit p content).perform w).2.SameMemory w := by
  have halike := Action.alike_emit p content w
  exact ⟨halike.answers, halike.runCache, halike.storedCache, (Action.emitted_emit p content w).2⟩

/-! ### Worlds with less in them -/

/-- Less was claimed, and the tree had not grown yet. -/
structure World.Behind (v u : World σ) : Prop where
  mode : v.mode = u.mode
  files : v.files.Grows u.files
  home : v.files.HomeStands
  claimed : ∀ c, c ∈ v.patches.claimed → c ∈ u.patches.claimed

/-- What is emitted where more is there is emitted where less is there. -/
theorem emit_behind {u' : World σ} (h : v.Behind u) (hu : (Action.emit p content).perform u = (.ok ⟨⟩, u')) :
    ∃ v', (Action.emit p content).perform v = (.ok ⟨⟩, v') ∧ v'.Behind u' := by
  have hok : ((Action.emit p content).perform u).1 = .ok ⟨⟩ := congrArg Prod.fst hu
  obtain ⟨hv, hgrows⟩ := Action.emit_of_grows h.files h.home h.mode hok
  refine ⟨((Action.emit p content).perform v).2, Prod.ext hv rfl, ?_, ?_, ?_, ?_⟩
  · have hmode := (sameMemory_emit p content u).mode
    rw [hu] at hmode
    rw [(sameMemory_emit p content v).mode, h.mode, hmode]
  · rw [hu] at hgrows
    exact hgrows
  · exact (Action.later_emit p content v).files.homeStands h.home
  · have hpatches := (Action.alike_emit p content u).patches
    rw [hu] at hpatches
    rw [(Action.alike_emit p content v).patches, hpatches]
    exact h.claimed

namespace Job

/-- The directory of the files of a package. -/
def Draft.directory (d : Draft) : Path := d.outputFile.parent?.getD ⟨""⟩

/-! ### Patches -/

theorem perform_emitPatch (directory : Path) (q : Patch) (w : World σ) :
    (emitPatch directory q).perform w =
      match w.patches.claim? (directory / q.fileName) with
      | none => (.error (.patchCollision (directory / q.fileName)), w)
      | some patches => (Action.emit (directory / q.fileName) q.content).perform { w with patches } := by
  unfold emitPatch
  rw [Action.perform_bind_ok (x := w) rfl]
  cases w.patches.claim? (directory / q.fileName) with
  | none => rfl
  | some patches => exact Action.perform_bind_ok (x := ⟨⟩) rfl

theorem emitted_emitPatch {directory : Path} {q : Patch} (h : (emitPatch directory q).perform w = (.ok (), w')) :
    w'.emitted = w.emitted ++ [⟨directory / q.fileName, q.content, false⟩] := by
  rw [perform_emitPatch] at h
  cases hclaim : w.patches.claim? (directory / q.fileName) with
  | none =>
    rw [hclaim] at h
    cases h
  | some patches =>
    rw [hclaim] at h
    obtain ⟨hemitted, -⟩ := Action.emitted_emit (directory / q.fileName) q.content { w with patches }
    dsimp only at h
    rw [h] at hemitted
    exact hemitted

theorem emitted_patches {directory : Path} {patches : List Patch}
    (h : (patches.forM (emitPatch directory)).perform w = (.ok (), w')) :
    w'.emitted = w.emitted ++ patches.map fun q => ⟨directory / q.fileName, q.content, false⟩ := by
  induction patches generalizing w with
  | nil =>
    cases h
    exact (List.append_nil _).symm
  | cons q patches ih =>
    rw [Action.forM_cons] at h
    obtain ⟨⟨⟩, v, hq, hrest⟩ := Action.bind_ok_cases h
    rw [ih hrest, emitted_emitPatch hq, List.map_cons, List.append_assoc]
    rfl

/-- If a patch cannot be emitted, its file was refused, unless it is a collision. -/
theorem refused_of_emitPatch {directory : Path} {q : Patch} {e : Error}
    (h : (emitPatch directory q).perform w = (.error e, w')) (hminor : e.isFatal = false) :
    w'.emitted = w.emitted ++ [⟨directory / q.fileName, q.content, true⟩] := by
  rw [perform_emitPatch] at h
  cases hclaim : w.patches.claim? (directory / q.fileName) with
  | none =>
    rw [hclaim] at h
    cases h
    cases hminor
  | some patches =>
    rw [hclaim] at h
    obtain ⟨hemitted, -⟩ := Action.emitted_emit (directory / q.fileName) q.content { w with patches }
    dsimp only at h
    rw [h] at hemitted
    exact hemitted

theorem refused_of_patches {directory : Path} {patches : List Patch} {e : Error}
    (h : (patches.forM (emitPatch directory)).perform w = (.error e, w')) (hminor : e.isFatal = false) :
    ∃ added, w'.emitted = w.emitted ++ added ∧ ∃ em ∈ added, em.refused = true := by
  obtain ⟨before, q, after, v, -, hbefore, hq⟩ := Action.forM_error h
  have hadded := refused_of_emitPatch hq hminor
  rw [emitted_patches hbefore, List.append_assoc] at hadded
  exact ⟨_, hadded, _, List.mem_append_right _ (List.mem_singleton_self _), rfl⟩

/-! ### Packages -/

/-- To announce a package does not fail. -/
theorem perform_announce (d : Draft) (w : World σ) : ∃ log, (announce d).perform w = (.ok (), { w with log }) := by
  rcases w with ⟨tools, files, log, printed, answers, runCache, storedCache, patches, _ | _, outOfDate, emitted⟩
  · exact ⟨_, rfl⟩
  · exact ⟨log, rfl⟩

/-- The package of a draft. -/
def Draft.package (d : Draft) : GeneratedPackage where
  name := d.recipe.name
  outputFile := d.outputFile
  dependencies := d.recipe.inputs.all

/-- To emit a package is to emit its recipe and its patches, up to the first fault. -/
theorem emitDraft_cases (d : Draft) (w : World σ) :
    (∃ e v, (Action.emit d.outputFile d.text.toUTF8).perform w = (.error e, v) ∧
      (emitDraft d).perform w = (.error e, v)) ∨
    ∃ v, (Action.emit d.outputFile d.text.toUTF8).perform w = (.ok ⟨⟩, v) ∧
      ((∃ e v', (d.patches.forM (emitPatch d.directory)).perform v = (.error e, v') ∧
        (emitDraft d).perform w = (.error e, v')) ∨
      ∃ v' log, (d.patches.forM (emitPatch d.directory)).perform v = (.ok (), v') ∧
        (emitDraft d).perform w = (.ok d.package, { v' with log })) := by
  have hdirectory : d.outputFile.parent?.getD ⟨""⟩ = d.directory := rfl
  unfold emitDraft
  rw [hdirectory]
  rcases hrecipe : (Action.emit d.outputFile d.text.toUTF8).perform w with ⟨e | ⟨⟩, v⟩
  · exact .inl ⟨e, v, rfl, by rw [Action.perform_bind, hrecipe]⟩
  · refine .inr ⟨v, rfl, ?_⟩
    rw [Action.perform_bind, hrecipe]
    dsimp only
    rcases hpatches : (d.patches.forM (emitPatch d.directory)).perform v with ⟨e | ⟨⟩, v'⟩
    · exact .inl ⟨e, v', rfl, by rw [Action.perform_bind, hpatches]⟩
    · obtain ⟨log, hannounce⟩ := perform_announce d v'
      refine .inr ⟨v', log, rfl, ?_⟩
      rw [Action.perform_bind, hpatches]
      dsimp only
      rw [Action.perform_bind, hannounce]
      rfl

/-- What a package that is emitted without a fault emits. -/
theorem emitted_emitDraft {d : Draft} {g : GeneratedPackage} (h : (emitDraft d).perform w = (.ok g, w')) :
    w'.emitted = w.emitted ++ ⟨d.outputFile, d.text.toUTF8, false⟩ ::
      d.patches.map fun q => ⟨d.directory / q.fileName, q.content, false⟩ := by
  obtain ⟨hemitted, -⟩ := Action.emitted_emit d.outputFile d.text.toUTF8 w
  rcases emitDraft_cases d w with ⟨e, v, -, hperform⟩ | ⟨v, hrecipe, hrest⟩
  · rw [h] at hperform
    cases hperform
  · rcases hrest with ⟨e, v', -, hperform⟩ | ⟨v', log, hpatches, hperform⟩
    · rw [h] at hperform
      cases hperform
    · rw [h] at hperform
      cases hperform
      rw [hrecipe] at hemitted
      rw [emitted_patches hpatches, hemitted, List.append_assoc]
      rfl

/-- If a package cannot be emitted, a file was refused, unless it is a collision of patches. -/
theorem refused_of_emitDraft {d : Draft} {e : Error} (h : (emitDraft d).perform w = (.error e, w'))
    (hminor : e.isFatal = false) : ∃ added, w'.emitted = w.emitted ++ added ∧ ∃ em ∈ added, em.refused = true := by
  obtain ⟨hemitted, -⟩ := Action.emitted_emit d.outputFile d.text.toUTF8 w
  rcases emitDraft_cases d w with ⟨e', v, hrecipe, hperform⟩ | ⟨v, hrecipe, hrest⟩
  · rw [h] at hperform
    cases hperform
    rw [hrecipe] at hemitted
    exact ⟨_, hemitted, _, List.mem_singleton_self _, rfl⟩
  · rw [hrecipe] at hemitted
    rcases hrest with ⟨e', v', hpatches, hperform⟩ | ⟨v', log, -, hperform⟩
    · rw [h] at hperform
      cases hperform
      obtain ⟨added, hadded, em, hem, hrefused⟩ := refused_of_patches hpatches hminor
      refine ⟨⟨d.outputFile, d.text.toUTF8, false⟩ :: added, ?_, em, List.mem_cons_of_mem _ hem, hrefused⟩
      rw [hadded, hemitted, List.append_assoc]
      rfl
    · rw [h] at hperform
      cases hperform

/-- Emitting a package leaves alone what is remembered of names and sources. -/
theorem sameMemory_emitDraft (d : Draft) (w : World σ) : ((emitDraft d).perform w).2.SameMemory w := by
  have hemit : ∀ p content, Action.Yields (·.SameMemory w) (Action.emit p content : Action σ Unit) fun _ => True :=
    fun p content v hv => ⟨(sameMemory_emit p content v).trans hv, fun _ _ => trivial⟩
  have hpatch : ∀ q, Action.Yields (·.SameMemory w) (emitPatch d.directory q : Action σ Unit) fun _ => True := by
    intro q v hv
    rw [perform_emitPatch]
    cases v.patches.claim? (d.directory / q.fileName) with
    | none => exact ⟨hv, fun _ _ => trivial⟩
    | some patches => exact hemit _ _ { v with patches } { hv with }
  obtain ⟨hrecipe, -⟩ := hemit d.outputFile d.text.toUTF8 w (.refl w)
  rcases emitDraft_cases d w with ⟨e, v, hperform, hdraft⟩ | ⟨v, hperform, hrest⟩
  · rw [hperform] at hrecipe
    rw [hdraft]
    exact hrecipe
  · rw [hperform] at hrecipe
    obtain ⟨hpatches, -⟩ := Action.Yields.forM hpatch d.patches v hrecipe
    rcases hrest with ⟨e, v', hperform', hdraft⟩ | ⟨v', log, hperform', hdraft⟩
    · rw [hperform'] at hpatches
      rw [hdraft]
      exact hpatches
    · rw [hperform'] at hpatches
      rw [hdraft]
      exact { hpatches with }

/-! ### Emitting where less is there -/

theorem emitPatch_behind {directory : Path} {q : Patch} {u' : World σ} (h : v.Behind u)
    (hu : (emitPatch directory q).perform u = (.ok (), u')) :
    ∃ v', (emitPatch directory q).perform v = (.ok (), v') ∧ v'.Behind u' := by
  rw [perform_emitPatch] at hu ⊢
  unfold PatchRegistry.claim? at hu ⊢
  by_cases hclaimed : (directory / q.fileName).components ∈ u.patches.claimed
  · rw [if_pos hclaimed] at hu
    cases hu
  · rw [if_neg hclaimed] at hu
    rw [if_neg fun hmem => hclaimed (h.claimed _ hmem)]
    have hboth : World.Behind { v with patches := ⟨(directory / q.fileName).components :: v.patches.claimed⟩ }
        { u with patches := ⟨(directory / q.fileName).components :: u.patches.claimed⟩ } := by
      refine ⟨h.mode, h.files, h.home, fun c hc => ?_⟩
      rcases List.mem_cons.1 hc with rfl | hc
      · exact List.mem_cons_self
      · exact List.mem_cons_of_mem _ (h.claimed c hc)
    exact emit_behind hboth hu

private theorem patches_behind {directory : Path} {patches : List Patch} {u' : World σ} (h : v.Behind u)
    (hu : (patches.forM (emitPatch directory)).perform u = (.ok (), u')) :
    ∃ v', (patches.forM (emitPatch directory)).perform v = (.ok (), v') ∧ v'.Behind u' := by
  induction patches generalizing u v with
  | nil =>
    cases hu
    exact ⟨v, rfl, h⟩
  | cons q patches ih =>
    rw [Action.forM_cons] at hu ⊢
    obtain ⟨⟨⟩, u₁, hq, hrest⟩ := Action.bind_ok_cases hu
    obtain ⟨v₁, hq', h₁⟩ := emitPatch_behind h hq
    obtain ⟨v', hrest', h'⟩ := ih h₁ hrest
    refine ⟨v', ?_, h'⟩
    rw [Action.perform_bind, hq']
    exact hrest'

/-- A package that is emitted where more is there is emitted where less is there. -/
theorem emitDraft_behind {d : Draft} {g : GeneratedPackage} {u' : World σ} (h : v.Behind u)
    (hu : (emitDraft d).perform u = (.ok g, u')) : ∃ v', (emitDraft d).perform v = (.ok g, v') := by
  rcases emitDraft_cases d u with ⟨e, u₁, -, hperform⟩ | ⟨u₁, hrecipe, hrest⟩
  · rw [hu] at hperform
    cases hperform
  rcases hrest with ⟨e, u₂, -, hperform⟩ | ⟨u₂, log, hpatches, hperform⟩
  · rw [hu] at hperform
    cases hperform
  rw [hu] at hperform
  cases hperform
  obtain ⟨v₁, hrecipe', h₁⟩ := emit_behind h hrecipe
  obtain ⟨v₂, hpatches', -⟩ := patches_behind h₁ hpatches
  rcases emitDraft_cases d v with ⟨e, v', hfails, -⟩ | ⟨v', hsame, hrest⟩
  · rw [hrecipe'] at hfails
    cases hfails
  rw [hrecipe'] at hsame
  cases hsame
  rcases hrest with ⟨e, v', hfails, -⟩ | ⟨v', log', -, hperform'⟩
  · rw [hpatches'] at hfails
    cases hfails
  · exact ⟨_, hperform'⟩

end Job

end RosRecipes
