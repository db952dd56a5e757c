import RosRecipes.Output
import RosRecipes.Proofs.Action
import RosRecipes.Proofs.FileTree.Creation

/-!
# Emitting

What one emission does.  In write mode the file is written, or the emission is refused (`emit_write`); in compare mode
nothing is refused, and a file that does not hold the content is noted (`emit_compare`).  A file that holds the content
is not changed by writing it (`emit_present`).  In both modes all that was there or was noted before stays, up to the
contents of emitted files (`later_emit`).
-/

namespace RosRecipes

open FileTree (Same Grows Extends Wrote)

variable {σ : Type} {u v w : World σ} {p : Path} {content : ByteArray}

/-- Is there a file with this content? -/
def FileTree.holds (t : FileTree) (p : Path) (content : ByteArray) : Bool :=
  match t.read p with
  | .ok found => decide (found = content)
  | .error _ => false

theorem FileTree.holds_iff {t : FileTree} : t.holds p content = true ↔ t.read p = .ok content := by
  unfold holds
  cases t.read p with
  | error e => exact ⟨nofun, nofun⟩
  | ok found => simp

theorem FileTree.Same.holds {t t' : FileTree} (h : t.Same t') : t.holds p content = t'.holds p content := by
  unfold FileTree.holds
  rw [h.read]

/-! ### Later worlds -/

/-- What may happen to a world while files are emitted. -/
structure World.Later (u v : World σ) : Prop where
  emitted : u.emitted <+: v.emitted
  outOfDate : u.outOfDate <+: v.outOfDate
  files : u.files.Grows v.files
  /-- Only emissions change files. -/
  kept : ∀ place c executable, u.files.find? place = some (.file c executable) →
    v.files.find? place = some (.file c executable) ∨
      ∃ e ∈ v.emitted, v.files.isFile e.path = true ∧ ∃ target, v.files.walk e.path = .ok target ∧ target.place = place

theorem World.Later.refl (w : World σ) : w.Later w :=
  ⟨List.prefix_refl _, List.prefix_refl _, (Same.refl _).grows, fun _ _ _ h => .inl h⟩

theorem World.Later.trans (h : u.Later v) (h' : v.Later w) : u.Later w := by
  refine ⟨h.emitted.trans h'.emitted, h.outOfDate.trans h'.outOfDate, h.files.trans h'.files, ?_⟩
  intro place c executable hplace
  rcases h.kept place c executable hplace with hkept | ⟨e, he, hfile, target, hwalk, htarget⟩
  · exact h'.kept place c executable hkept
  · exact .inr ⟨e, h'.emitted.subset he, h'.files.isFile hfile, target, h'.files.walk hwalk, htarget⟩

namespace Action

/-! ### One emission -/

private theorem writeFile_below {above : Path} (hparent : p.parent? = some above) (hne : above.isEmpty = false) :
    (writeFile p content : Action σ Unit) =
      changeFiles (.write above) (·.makeDirectories above) >>= fun _ => changeFiles (.write p) (·.write p content) := by
  unfold writeFile
  simp only [hparent, hne]
  rfl

private theorem writeFile_here (h : ∀ above, p.parent? = some above → above.isEmpty = true) :
    (writeFile p content : Action σ Unit) = changeFiles (.write p) (·.write p content) := by
  unfold writeFile
  cases hparent : p.parent? with
  | none => rfl
  | some above =>
    simp only [h above hparent]
    rfl

private theorem parent_cases (p : Path) :
    (∃ above, p.parent? = some above ∧ above.isEmpty = false) ∨
      ∀ above, p.parent? = some above → above.isEmpty = true := by
  cases p.parent? with
  | none => exact .inr nofun
  | some above =>
    cases hempty : above.isEmpty with
    | false => exact .inl ⟨above, rfl, hempty⟩
    | true =>
      refine .inr fun other h => ?_
      cases h
      exact hempty

private theorem writeFile_cases (p : Path) (content : ByteArray) (w : World σ) :
    (∃ t, Wrote p content w.files t ∧ (writeFile p content).perform w = (.ok ⟨⟩, { w with files := t })) ∨
      ∃ e t, w.files.Extends t ∧ (writeFile p content).perform w = (.error e, { w with files := t }) := by
  have hwrite : ∀ t, w.files.Extends t →
      (∃ t', Wrote p content w.files t' ∧ (changeFiles (.write p) (·.write p content)).perform { w with files := t } =
        (.ok ⟨⟩, { w with files := t' })) ∨
      ∃ e t', w.files.Extends t' ∧ (changeFiles (.write p) (·.write p content)).perform { w with files := t } =
        (.error e, { w with files := t' }) := by
    intro t hextends
    rw [perform_changeFiles]
    cases hresult : t.write p content with
    | error e => exact .inr ⟨_, t, hextends, rfl⟩
    | ok t' => exact .inl ⟨t', hextends.wrote (FileTree.wrote_of_write hresult), rfl⟩
  rcases parent_cases p with ⟨above, hparent, hne⟩ | hhere
  · rw [writeFile_below hparent hne, perform_bind, perform_changeFiles]
    cases hmake : w.files.makeDirectories above with
    | error e => exact .inr ⟨_, w.files, .refl _, rfl⟩
    | ok t => exact hwrite t (FileTree.extends_of_makeDirectories hmake)
  · rw [writeFile_here hhere]
    exact hwrite w.files (.refl _)

/-- An emission is kept in the record, whatever comes of it. -/
private theorem perform_emit {a : Action σ Unit}
    (ha : (match w.mode with | .write => writeFile p content | .compare => compareFile p content) = a) :
    (emit p content).perform w = ((a.perform w).1,
      { (a.perform w).2 with emitted := (a.perform w).2.emitted ++ [⟨p, content, !(a.perform w).1.isOk⟩] }) := by
  subst ha
  unfold emit
  rw [perform_bind_ok rfl, perform_bind_ok (x := ⟨⟩) rfl, perform_ofExcept, perform_attempt,
    perform_bind_ok (x := w) rfl]
  rfl

/-- In write mode the file is written, or the emission is refused. -/
theorem emit_write (hmode : w.mode = .write) (p : Path) (content : ByteArray) :
    (∃ t, Wrote p content w.files t ∧ (emit p content).perform w =
      (.ok ⟨⟩, { w with files := t, emitted := w.emitted ++ [⟨p, content, false⟩] })) ∨
    ∃ e t, w.files.Extends t ∧ (emit p content).perform w =
      (.error e, { w with files := t, emitted := w.emitted ++ [⟨p, content, true⟩] }) := by
  rw [perform_emit (a := writeFile p content) (by rw [hmode])]
  rcases writeFile_cases p content w with ⟨t, hwrote, hperform⟩ | ⟨e, t, hextends, hperform⟩
  · rw [hperform]
    exact .inl ⟨t, hwrote, rfl⟩
  · rw [hperform]
    exact .inr ⟨e, t, hextends, rfl⟩

/-- In write mode a file that holds the content already is left as it is. -/
theorem emit_present (hmode : w.mode = .write) (h : w.files.holds p content = true) :
    ∃ t, t.Same w.files ∧ (emit p content).perform w =
      (.ok ⟨⟩, { w with files := t, emitted := w.emitted ++ [⟨p, content, false⟩] }) := by
  have hread := FileTree.holds_iff.1 h
  obtain ⟨t, hwrite, hsame⟩ := FileTree.same_of_write_read hread
  have hperform : (writeFile p content).perform w = (.ok ⟨⟩, { w with files := t }) := by
    rcases parent_cases p with ⟨above, hparent, hne⟩ | hhere
    · obtain ⟨executable, hlookup⟩ := FileTree.read_eq_ok_iff.1 hread
      obtain ⟨target, hwalk, -, -⟩ := FileTree.lookup_eq_file_iff.1 hlookup
      have hmake := FileTree.makeDirectories_of_isDirectory (FileTree.isDirectory_parent hwalk hparent hne)
      rw [writeFile_below hparent hne, perform_bind, perform_changeFiles, hmake]
      dsimp only
      rw [perform_changeFiles, hwrite]
    · rw [writeFile_here hhere, perform_changeFiles, hwrite]
  refine ⟨t, hsame, ?_⟩
  rw [perform_emit (a := writeFile p content) (by rw [hmode]), hperform]
  rfl

private theorem changeFiles_ok_iff {fault : FileFault → Error} {change : FileTree → Except FileFault FileTree}
    {w' : World σ} : (changeFiles fault change).perform w = (.ok ⟨⟩, w') ↔
      ∃ t, change w.files = .ok t ∧ w' = { w with files := t } := by
  rw [perform_changeFiles]
  constructor
  · intro h
    cases hchange : change w.files with
    | error e =>
      rw [hchange] at h
      cases h
    | ok t =>
      rw [hchange] at h
      cases h
      exact ⟨t, rfl, rfl⟩
  · rintro ⟨t, hchange, rfl⟩
    rw [hchange]

/-- What is written into a tree that has grown is written into the tree before. -/
private theorem writeFile_of_grows {u' : World σ} (hgrows : v.files.Grows u.files) (hhome : v.files.HomeStands)
    (h : (writeFile p content).perform u = (.ok ⟨⟩, u')) :
    ∃ t, (writeFile p content).perform v = (.ok ⟨⟩, { v with files := t }) ∧ t.Grows u'.files := by
  rcases parent_cases p with ⟨above, hparent, hne⟩ | hhere
  · rw [writeFile_below hparent hne] at h ⊢
    obtain ⟨⟨⟩, u₁, hfirst, hrest⟩ := bind_ok_cases h
    obtain ⟨t, hmake, rfl⟩ := changeFiles_ok_iff.1 hfirst
    obtain ⟨t', hwrite, rfl⟩ := changeFiles_ok_iff.1 hrest
    obtain ⟨target, -, hwalk, -⟩ := FileTree.set_of_write hwrite
    have hbefore := hgrows.trans (FileTree.extends_of_makeDirectories hmake).grows
    obtain ⟨s, hmake', hgrows', hthere⟩ := FileTree.makeDirectories_of_grows hbefore hhome hparent hne
      (FileTree.isDirectory_parent hwalk hparent hne)
    have hhome' := (FileTree.extends_of_makeDirectories hmake').grows.homeStands hhome
    have habove : ∀ other, p.parent? = some other → other.isEmpty = false → s.isDirectory other = true := by
      intro other hother _
      rw [hparent] at hother
      cases hother
      exact hthere
    obtain ⟨s', hwrite', hgrows''⟩ := FileTree.write_of_grows hgrows' hhome' habove hwrite
    have hmade : (changeFiles (.write above) (·.makeDirectories above)).perform v = (.ok ⟨⟩, { v with files := s }) :=
      changeFiles_ok_iff.2 ⟨s, hmake', rfl⟩
    refine ⟨s', ?_, hgrows''⟩
    rw [perform_bind, hmade]
    exact changeFiles_ok_iff.2 ⟨s', hwrite', rfl⟩
  · rw [writeFile_here hhere] at h ⊢
    obtain ⟨t, hwrite, rfl⟩ := changeFiles_ok_iff.1 h
    have habove : ∀ above, p.parent? = some above → above.isEmpty = false → v.files.isDirectory above = true := by
      intro above hparent hne
      rw [hhere above hparent] at hne
      cases hne
    obtain ⟨s, hwrite', hgrows'⟩ := FileTree.write_of_grows hgrows hhome habove hwrite
    exact ⟨s, changeFiles_ok_iff.2 ⟨s, hwrite', rfl⟩, hgrows'⟩

/-- In compare mode a file that does not hold the content is noted. -/
theorem emit_compare (hmode : w.mode = .compare) (p : Path) (content : ByteArray) :
    ∃ log printed, (emit p content).perform w = (.ok ⟨⟩, { w with
      log, printed
      outOfDate := w.outOfDate ++ if w.files.holds p content then [] else [p]
      emitted := w.emitted ++ [⟨p, content, false⟩] }) := by
  have hperform : ∃ log printed, (compareFile p content).perform w = (.ok ⟨⟩, { w with
      log, printed
      outOfDate := w.outOfDate ++ if w.files.holds p content then [] else [p] }) := by
    unfold compareFile FileTree.holds
    rw [perform_bind_ok (x := w) rfl]
    cases w.files.read p with
    | error fault => exact ⟨_, _, rfl⟩
    | ok found =>
      by_cases hfound : found = content
      · refine ⟨w.log, w.printed, ?_⟩
        dsimp only
        rw [if_neg (not_not_intro hfound), if_pos (by simpa using hfound), List.append_nil]
        rfl
      · dsimp only
        rw [if_pos hfound, if_neg (by simpa using hfound)]
        exact ⟨_, _, rfl⟩
  obtain ⟨log, printed, hperform⟩ := hperform
  refine ⟨log, printed, ?_⟩
  rw [perform_emit (a := compareFile p content) (by rw [hmode]), hperform]
  rfl

/-- In compare mode the diff from a file that differs is printed. -/
theorem printed_emit {found : ByteArray} (hmode : w.mode = .compare) (hread : w.files.read p = .ok found)
    (hne : found ≠ content) :
    ((emit p content).perform w).2.printed = w.printed ++
      [Diff.unified p.text "up-to-date" (Text.decodeLossy found) (Text.decodeLossy content) ++ "\n"] := by
  rw [perform_emit (a := compareFile p content) (by rw [hmode])]
  unfold compareFile
  rw [perform_bind_ok (x := w) rfl, hread]
  dsimp only
  rw [if_pos hne]
  rfl

/-- What is emitted where the tree has grown is emitted where it was before. -/
theorem emit_of_grows (hgrows : v.files.Grows u.files) (hhome : v.files.HomeStands) (hmode : v.mode = u.mode)
    (h : ((emit p content).perform u).1 = .ok ⟨⟩) :
    ((emit p content).perform v).1 = .ok ⟨⟩ ∧
      ((emit p content).perform v).2.files.Grows ((emit p content).perform u).2.files := by
  cases hu : u.mode with
  | write =>
    rw [perform_emit (w := u) (a := writeFile p content) (by rw [hu])] at h ⊢
    rw [perform_emit (w := v) (a := writeFile p content) (by rw [hmode, hu])]
    dsimp only at h
    have hwritten : (writeFile p content).perform u = (.ok ⟨⟩, ((writeFile p content).perform u).2) := by rw [← h]
    obtain ⟨t, hperform, hgrows'⟩ := writeFile_of_grows hgrows hhome hwritten
    rw [hperform]
    exact ⟨rfl, hgrows'⟩
  | compare =>
    obtain ⟨log, printed, hperform⟩ := emit_compare hu p content
    obtain ⟨log', printed', hperform'⟩ := emit_compare (hmode.trans hu) p content
    rw [hperform, hperform']
    exact ⟨rfl, hgrows⟩

/-- Emitting takes nothing away. -/
theorem later_emit (p : Path) (content : ByteArray) (w : World σ) : w.Later ((emit p content).perform w).2 := by
  cases hmode : w.mode with
  | write =>
    rcases emit_write hmode p content with ⟨t, hwrote, hperform⟩ | ⟨e, t, hextends, hperform⟩
    · rw [hperform]
      refine ⟨List.prefix_append _ _, List.prefix_refl _, hwrote.grows, fun place c executable hplace => ?_⟩
      rcases hwrote.others place c executable hplace with hkept | htarget
      · exact .inl hkept
      · have hfile : t.isFile p = true := FileTree.isFile_iff.2 ⟨content, FileTree.read_eq_ok_iff.2 hwrote.file⟩
        exact .inr ⟨⟨p, content, false⟩, List.mem_append_right _ (List.mem_singleton_self _), hfile, htarget⟩
    · rw [hperform]
      exact ⟨List.prefix_append _ _, List.prefix_refl _, hextends.grows, fun place c executable hplace =>
        .inl (hextends.find place _ hplace)⟩
  | compare =>
    obtain ⟨log, printed, hperform⟩ := emit_compare hmode p content
    rw [hperform]
    exact ⟨List.prefix_append _ _, List.prefix_append _ _, (Same.refl _).grows, fun _ _ _ hplace => .inl hplace⟩

end Action

end RosRecipes
