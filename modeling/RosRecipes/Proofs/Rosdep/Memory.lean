import RosRecipes.Proofs.Generation.Confinement

/-!
# What a database has said

A database replies to a name with what it knows by itself or what the tool has answered before (`Database.Replies`).  It
says that to every question that follows, and asks nobody (`Replies.lookup`).  What was looked up once is said from then
on (`replies_of_lookup`), whatever else is looked up or called (`confined_replies`).
-/

namespace RosRecipes.Rosdep.Database

open Action (Confined)

variable {σ : Type} {db : Database} {runner : Runner σ} {name : String} {answer : Lookup} {w w' : World σ}

/-- In this world the database has this answer at hand. -/
def Replies (db : Database) (w : World σ) (name : String) (answer : Lookup) : Prop :=
  match db.known? with
  | some f => f name = answer
  | none => w.answers.get? name = some answer

/-- Only remembered answers matter. -/
theorem Replies.of_answers (h : db.Replies w name answer) (hw : w'.answers = w.answers) :
    db.Replies w' name answer := by
  unfold Replies at h ⊢
  rw [hw]
  exact h

/-- What a database says is its answer, and nothing changes. -/
theorem Replies.lookup (h : db.Replies w name answer) :
    (db.lookup runner name targetSystem).perform w = (.ok answer, w) := by
  rcases db.knows_or_tool with ⟨f, hknown⟩ | ⟨distribution, rfl⟩
  · unfold Replies at h
    rw [hknown] at h
    rw [lookup_of_knows hknown, h]
    rfl
  · have hmemo : w.answers.get? name = some answer := h
    rw [perform_lookup_tool, hmemo]

/-- An answer is at hand from then on. -/
theorem replies_of_lookup (h : (db.lookup runner name targetSystem).perform w = (.ok answer, w')) :
    db.Replies w' name answer := by
  rcases db.knows_or_tool with ⟨f, hknown⟩ | ⟨distribution, rfl⟩
  · rw [lookup_of_knows hknown] at h
    cases h
    unfold Replies
    rw [hknown]
  · show w'.answers.get? name = some answer
    rw [perform_lookup_tool] at h
    cases hmemo : w.answers.get? name with
    | some found =>
      rw [hmemo] at h
      cases h
      exact hmemo
    | none =>
      rw [hmemo] at h
      dsimp only at h
      split at h
      · cases h
        rw [Table.get?_insert, if_pos rfl]
      · cases h

theorem confines_replies : runner.Confines (db.Replies · name answer) (fun _ => True) where
  call := fun _ => .call (fun _ _ _ hw => hw.of_answers rfl) fun _ _ _ _ => trivial
  minor := fun _ _ => trivial
  files := fun _ _ hw => hw.of_answers rfl
  log := fun _ _ hw => hw.of_answers rfl
  runCache := fun _ _ hw => hw.of_answers rfl
  storedCache := fun _ _ hw => hw.of_answers rfl

/-- No lookup changes what the database says of another name, or of the same. -/
theorem confined_replies (other : String) :
    Confined (db.Replies · name answer) (fun _ => True) (db.lookup runner other targetSystem : Action σ Lookup) := by
  rcases db.knows_or_tool with ⟨f, hknown⟩ | ⟨distribution, rfl⟩
  · rw [lookup_of_knows hknown]
    exact .pure _
  · refine .get fun w hw => ?_
    have hmemo : w.answers.get? name = some answer := hw
    by_cases hother : other = name
    · rw [hother, hmemo]
      exact .pure answer
    · cases w.answers.get? other with
      | some found => exact .pure found
      | none =>
        refine (confines_replies.others.ask _ _ _).bind fun found => .bind (.modify fun v hv => ?_) fun _ => .pure found
        show (v.answers.insert other found).get? name = some answer
        rw [Table.get?_insert, if_neg (Ne.symm hother)]
        exact hv

end RosRecipes.Rosdep.Database
