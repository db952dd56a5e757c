import RosRecipes.Proofs.FileTree.Creation
import RosRecipes.Shell.Launch

/-!
# Programs keep directories

No program takes a directory away: scripts write files, create directories and remove files only
(`FileTree.Keeps`).  Most tools do not touch the files at all, so they are described by equations; those that do, the
expansion of words, redirections and the commands of a script each keep the directories.

* `keeps_evaluate`: a script keeps the directories, by induction on its depth with one case for each command.
* `homeStands_runner`: after any program has run, the working directory still exists.
-/

namespace RosRecipes

open Shell

namespace FileTree

variable {t u v : FileTree} {p : Path}

/-- `u` has every directory of `t`. -/
def Keeps (t u : FileTree) : Prop := ∀ place, t.find? place = some .directory → u.find? place = some .directory

theorem Keeps.refl (t : FileTree) : t.Keeps t := fun _ h => h

theorem Keeps.trans (h : t.Keeps u) (h' : u.Keeps v) : t.Keeps v := fun place hplace => h' place (h place hplace)

theorem Keeps.homeStands (h : t.Keeps u) (hhome : u.home = t.home) (hstands : t.HomeStands) : u.HomeStands := by
  intro n
  rw [hhome]
  exact h _ (hstands n)

theorem keeps_write {content : ByteArray} (h : t.write p content = .ok u) : t.Keeps u :=
  (wrote_of_write h).grows.directory

theorem keeps_makeDirectory (h : t.makeDirectory p = .ok u) : t.Keeps u := (extends_of_makeDirectory h).grows.directory

theorem keeps_makeDirectories (h : t.makeDirectories p = .ok u) : t.Keeps u :=
  (extends_of_makeDirectories h).grows.directory

/-- Only a file is removed, and no directory is where a file is. -/
theorem keeps_removeFile (h : t.removeFile p = .ok u) : t.Keeps u := by
  unfold removeFile at h
  cases hlookup : t.lookup p with
  | error fault => simp [hlookup, bind, Except.bind] at h
  | ok e =>
    cases e with
    | directory => simp [hlookup, bind, Except.bind] at h
    | file content executable =>
      obtain ⟨target, hwalk, -, hfile⟩ := lookup_eq_file_iff.1 hlookup
      have hu : u = { t with entries := t.entries.erase target.place } := by
        simpa [hlookup, hwalk, bind, Except.bind, eq_comm] using h
      have hne : target.place ≠ [] := by
        intro hroot
        rw [hroot, find?_root] at hfile
        cases hfile
      intro place hplace
      rw [hu, find?_erase t hne, if_neg, hplace]
      rintro rfl
      rw [hfile] at hplace
      cases hplace

end FileTree

namespace Shell

variable {p q r : Process}

/-- The files of `q` have every directory of those of `p`. -/
def Process.Keeps (p q : Process) : Prop := p.files.Keeps q.files

theorem Process.Keeps.refl (p : Process) : p.Keeps p := FileTree.Keeps.refl _

theorem Process.Keeps.trans (h : p.Keeps q) (h' : q.Keeps r) : p.Keeps r := FileTree.Keeps.trans h h'

theorem keeps_of_files (h : q.files = p.files) : p.Keeps q := by
  unfold Process.Keeps
  rw [h]
  exact .refl _

/-- What each step keeps, a run over a list keeps. -/
theorem keeps_foldl {α β : Type} (view : β → Process) {f : β → α → β} (h : ∀ b a, (view b).Keeps (view (f b a)))
    (l : List α) (b : β) : (view b).Keeps (view (l.foldl f b)) :=
  List.foldlRecOn (motive := fun b' => (view b).Keeps (view b')) l f (.refl _) fun b' hb a _ => hb.trans (h b' a)

/-! ### Filters -/

theorem files_ended (p : Process) (status : Nat) : (p.ended status).files = p.files := rfl

theorem files_print (p : Process) (s : String) : (p.print s).files = p.files := rfl

/-- What a tool does leaves the files alone. -/
def LeavesFiles (act : Process → Process) : Prop := ∀ p, (act p).files = p.files

theorem LeavesFiles.keeps {act : Process → Process} (h : LeavesFiles act) (p : Process) : p.Keeps (act p) :=
  keeps_of_files (h p)

namespace Filter

variable {filter : Process → Process}

/-- A filter leaves the files alone if it does so on one input. -/
theorem leavesFiles_onFiles (lead : String → String) (failure : Nat) (hfilter : LeavesFiles filter)
    (names : List String) : LeavesFiles (onFiles lead failure filter names) := by
  intro p
  unfold onFiles
  split
  · exact hfilter p
  · dsimp only
    rw [hfilter]
    refine List.foldlRecOn (motive := fun s : Process × Stream => s.1.files = p.files) names _ rfl ?_
    intro s hs file _
    split <;> exact hs

theorem files_putLines (ended : Bool) (lines : List (List Char)) (p : Process) :
    (putLines ended lines p).files = p.files := rfl

theorem leavesFiles_onLines (change : List (List Char) → List (List Char)) : LeavesFiles (onLines change) :=
  fun _ => rfl

theorem leavesFiles_onEndedLines (change : List (List Char) → List (List Char)) : LeavesFiles (onEndedLines change) :=
  fun _ => rfl

theorem leavesFiles_cat : LeavesFiles cat := fun _ => rfl

theorem leavesFiles_headBytes (n : Nat) : LeavesFiles (headBytes n) := fun _ => rfl

theorem leavesFiles_headLines (n : Nat) : LeavesFiles (headLines n) := fun _ => rfl

theorem leavesFiles_head (arguments : List String) : LeavesFiles (head arguments) := by
  unfold head
  split
  · exact leavesFiles_onFiles _ _ (leavesFiles_headBytes _) _
  · exact leavesFiles_onFiles _ _ (leavesFiles_headLines _) _

theorem leavesFiles_tail (arguments : List String) : LeavesFiles (tail arguments) := by
  unfold tail
  split
  · refine leavesFiles_onFiles _ _ (fun p => ?_) _
    rfl
  · split
    · split <;> exact leavesFiles_onFiles _ _ (leavesFiles_onLines _) _
    · exact leavesFiles_onFiles _ _ (leavesFiles_onLines _) _

theorem leavesFiles_wc (arguments : List String) : LeavesFiles (wc arguments) := by
  unfold wc
  refine leavesFiles_onFiles _ _ (fun p => ?_) _
  rfl

theorem leavesFiles_sed (arguments : List String) : LeavesFiles (sed arguments) := by
  unfold sed
  dsimp only
  split
  · exact leavesFiles_onFiles _ _ (leavesFiles_onLines _) _
  · exact fun _ => rfl

theorem leavesFiles_grep (arguments : List String) : LeavesFiles (grep arguments) := by
  intro p
  unfold grep
  dsimp only
  split
  · rfl
  · refine leavesFiles_onFiles _ _ (fun q => ?_) _ p
    have hlines : (takeLines q).2.2.files = q.files := rfl
    simp only [files_ended, apply_ite Process.files, files_print, files_putLines, hlines, ite_self]

theorem leavesFiles_sort (arguments : List String) : LeavesFiles (sort arguments) := by
  unfold sort
  exact leavesFiles_onFiles _ _ (leavesFiles_onEndedLines _) _

theorem leavesFiles_cut (arguments : List String) : LeavesFiles (cut arguments) := leavesFiles_onLines _

theorem leavesFiles_tr (arguments : List String) : LeavesFiles (tr arguments) := by
  intro p
  unfold tr
  dsimp only
  split <;> rfl

theorem keeps_tee (arguments : List String) (p : Process) : p.Keeps (tee arguments p) := by
  unfold tee Process.Keeps
  refine List.foldlRecOn (motive := fun files : FileTree => p.files.Keeps files) _ _ (.refl _) ?_
  intro files hfiles file _
  refine hfiles.trans ?_
  dsimp only
  cases hwrite : FileTree.write files _ _ with
  | error fault => exact .refl _
  | ok written => exact FileTree.keeps_write hwrite

/-- A filter that is found by its name keeps the directories. -/
theorem keeps_run? {name : String} {arguments : List String} (h : run? name arguments p = some q) : p.Keeps q := by
  unfold run? at h
  split at h <;> cases h
  · refine (leavesFiles_onFiles _ _ ?_ _).keeps p
    split
    · exact leavesFiles_onLines _
    · exact leavesFiles_cat
  · exact (leavesFiles_head _).keeps p
  · exact (leavesFiles_tail _).keeps p
  · exact (leavesFiles_wc _).keeps p
  · exact (leavesFiles_sed _).keeps p
  · exact (leavesFiles_grep _).keeps p
  · exact (leavesFiles_sort _).keeps p
  · exact (leavesFiles_onFiles _ _ (leavesFiles_onEndedLines _) _).keeps p
  · exact (leavesFiles_onFiles _ _ (leavesFiles_onLines _) _).keeps p
  · exact (leavesFiles_onFiles _ _ (leavesFiles_onLines _) _).keeps p
  · exact (leavesFiles_cut _).keeps p
  · exact (leavesFiles_tr _).keeps p
  · exact keeps_tee _ p

end Filter

/-! ### Tools -/

namespace Tool

/-- A tool that changes files one after the other keeps the directories if each change does. -/
theorem keeps_change (tool : String) {act : FileTree → Path → Except FileFault FileTree}
    (hact : ∀ t path u, act t path = .ok u → t.Keeps u) (names : List String) (p : Process) :
    p.Keeps (change tool act names p) := by
  unfold change
  refine keeps_foldl id (fun q name => ?_) names (p.ended 0)
  dsimp only [id]
  split
  · next files hfiles => exact hact _ _ _ hfiles
  · exact keeps_of_files rfl

theorem leavesFiles_echo (dialect : Dialect) (arguments : List String) : LeavesFiles (echo dialect arguments) :=
  fun _ => rfl

theorem leavesFiles_printf (dialect : Dialect) (lead : String) (arguments : List String) :
    LeavesFiles (printf dialect lead arguments) := by
  intro p
  unfold printf
  dsimp only
  split
  · next s rest dialect =>
    exact List.foldlRecOn (motive := fun q : Process => q.files = p.files) _ _ rfl fun q hq text _ => hq
  · rfl
  · rfl

theorem leavesFiles_read (arguments : List String) : LeavesFiles (read arguments) := fun _ => rfl

theorem leavesFiles_seq (arguments : List String) : LeavesFiles (seq arguments) := fun _ => rfl

theorem leavesFiles_assign (arguments : List String) : LeavesFiles (assign arguments) := by
  intro p
  unfold assign
  refine List.foldlRecOn (motive := fun q : Process => q.files = p.files) _ _ rfl fun q hq argument _ => ?_
  split <;> exact hq

theorem leavesFiles_exportAll (arguments : List String) : LeavesFiles (exportAll arguments) :=
  leavesFiles_assign arguments

/-- Only the working directory changes, and the files stay. -/
theorem keeps_cd (arguments : List String) (p : Process) : p.Keeps (cd arguments p) := by
  unfold cd
  dsimp only
  split <;> exact fun _ h => h

theorem keeps_runCommon? {name : String} {arguments : List String} (h : runCommon? name arguments p = some q) :
    p.Keeps q := by
  unfold runCommon? at h
  split at h <;> cases h <;> exact keeps_of_files rfl

theorem keeps_runBuiltin? {name : String} {arguments : List String} (h : runBuiltin? name arguments p = some q) :
    p.Keeps q := by
  unfold runBuiltin? at h
  split at h <;> try (rw [Option.some.injEq] at h; subst h)
  · exact keeps_of_files rfl
  · exact keeps_of_files rfl
  · exact keeps_of_files rfl
  · exact keeps_of_files rfl
  · exact (leavesFiles_echo .shell arguments).keeps p
  · exact (leavesFiles_printf .shell _ arguments).keeps p
  · exact (leavesFiles_read arguments).keeps p
  · exact keeps_cd arguments p
  · exact keeps_of_files rfl
  · exact (leavesFiles_exportAll arguments).keeps p
  · exact (leavesFiles_assign arguments).keeps p
  · exact (leavesFiles_assign arguments).keeps p
  · exact keeps_of_files rfl
  · exact keeps_runCommon? h

theorem keeps_runInstalled? {name : String} {arguments : List String} (h : runInstalled? name arguments p = some q) :
    p.Keeps q := by
  unfold runInstalled? at h
  split at h <;> try (rw [Option.some.injEq] at h; subst h)
  · exact keeps_of_files rfl
  · exact (leavesFiles_echo .installed arguments).keeps p
  · exact (leavesFiles_printf .installed _ arguments).keeps p
  · exact (leavesFiles_seq arguments).keeps p
  · exact keeps_of_files rfl
  · refine keeps_change _ (fun t path u hu => ?_) _ p
    split at hu
    · exact FileTree.keeps_makeDirectories hu
    · exact FileTree.keeps_makeDirectory hu
  · refine keeps_change _ (fun t path u hu => ?_) _ p
    split at hu
    · cases hu
      exact .refl t
    · exact FileTree.keeps_write hu
  · refine keeps_change _ (fun t path u hu => ?_) _ p
    split at hu
    · split at hu
      · cases hu
        exact .refl t
      · cases hu
    · exact FileTree.keeps_removeFile hu
  · exact keeps_of_files rfl
  · exact keeps_of_files rfl
  · rcases Option.or_eq_some_iff.1 h with hcommon | ⟨-, hfilter⟩
    · exact keeps_runCommon? hcommon
    · exact Filter.keeps_run? hfilter

end Tool

/-! ### Expanding words -/

/-- Runs of scripts in words keep the directories. -/
def Capture.Keeps (capture : Capture) : Prop := ∀ script (p : Process), p.Keeps (capture script p).1

variable {capture : Capture}

theorem keeps_expandTo (hcapture : capture.Keeps) (depth : Nat) (w : Word) (p : Process) :
    p.Keeps (expandTo capture p w depth).1 := by
  induction depth generalizing w p with
  | zero => exact .refl p
  | succ depth ih =>
    unfold expandTo
    refine keeps_foldl Prod.fst (fun state part => ?_) w (p, [])
    obtain ⟨q, pieces⟩ := state
    cases part with
    | text text quoted => exact .refl q
    | value name change quoted =>
      dsimp only
      split
      · exact .refl q
      · exact .refl q
      · next sign operand _ =>
        have hoperand := ih (Token.scanWhole quoted operand) q
        -- the value of the parameter is taken as it is, or the operand is expanded
        split <;> (try split) <;> first | exact .refl q | exact hoperand
    | printed script quoted => exact hcapture script q
    | number expression quoted => exact ih _ q

theorem keeps_joined (hcapture : capture.Keeps) (p : Process) (w : Word) : p.Keeps (joined capture p w).1 :=
  keeps_expandTo hcapture 16 w p

theorem keeps_expandAll (hcapture : capture.Keeps) (p : Process) (words : List Word) :
    p.Keeps (expandAll capture p words).1 := by
  refine keeps_foldl Prod.fst (fun state w => ?_) words (p, [])
  exact keeps_expandTo hcapture 16 w state.1

/-! ### Redirections -/

theorem keeps_redirect {s s' : Plumbing} {r : Redirection} {target : String} (h : redirect p s r target = .ok (q, s')) :
    p.Keeps q := by
  unfold redirect at h
  split at h
  · cases h
    exact .refl p
  · split at h
    · cases h
      exact .refl p
    · cases h
  · cases h
    exact .refl p
  · cases h
    exact .refl p
  · split at h
    · cases h
      exact .refl p
    · cases h
      exact .refl p
    · cases h
      exact .refl p
    · dsimp only at h
      split at h
      · next files hwrite =>
        cases h
        exact FileTree.keeps_write hwrite
      · cases h
      · cases h

theorem keeps_redirectAll (hcapture : capture.Keeps) (p : Process) (rs : List Redirection) :
    p.Keeps (redirectAll capture p rs).1 := by
  refine keeps_foldl Prod.fst (fun state r => ?_) rs (p, Except.ok ({} : Plumbing))
  obtain ⟨q, s⟩ := state
  cases s with
  | error e => exact .refl q
  | ok s =>
    have hjoined := keeps_joined hcapture q r.target
    dsimp only
    split
    · next hredirect => exact hjoined.trans (keeps_redirect hredirect)
    · exact hjoined

theorem keeps_send (p : Process) (sink : Sink) (s : Stream) : p.Keeps (send p sink s) := by
  cases sink with
  | output => exact keeps_of_files rfl
  | errors => exact keeps_of_files rfl
  | nowhere => exact .refl p
  | file path =>
    unfold send Process.Keeps
    dsimp only
    cases hwrite : p.files.write path _ with
    | error fault => exact .refl _
    | ok files => exact FileTree.keeps_write hwrite

/-! ### Commands -/

/-- What runs the parts of a command keeps the directories. -/
def RunKeeps (run : Node → Process → Ended) : Prop := ∀ n (p : Process), p.Keeps (run n p).1

variable {run : Node → Process → Ended}

/-- A part may start with other streams, variables and arguments. -/
theorem RunKeeps.from (hrun : RunKeeps run) (n : Node) (h : q.files = p.files) : p.Keeps (run n q).1 :=
  (keeps_of_files h).trans (hrun n q)

theorem RunKeeps.of_eq (hrun : RunKeeps run) {n : Node} {ending : Option Ending} (h : run n p = (q, ending)) :
    p.Keeps q := by
  have hkeeps := hrun n p
  rw [h] at hkeeps
  exact hkeeps

theorem keeps_leave {inner : Ended} (h : p.Keeps inner.1) : p.Keeps (leave p inner).1 := h

theorem keeps_runScript (hrun : RunKeeps run) (strict : Bool) (name : String) (script : List Char)
    (arguments : List String) (p : Process) : p.Keeps (runScript run strict name script arguments p).1 := by
  unfold runScript
  dsimp only
  split
  · next n _ => exact keeps_leave (hrun.from n rfl)
  · exact keeps_of_files rfl

theorem keeps_runShell (hrun : RunKeeps run) (arguments : List String) (p : Process) :
    p.Keeps (runShell run arguments p).1 := by
  unfold runShell
  split
  · exact keeps_of_files rfl
  · exact keeps_runScript hrun _ _ _ _ p
  · exact keeps_runScript hrun _ _ _ _ p
  · exact keeps_runScript hrun _ _ _ _ p
  · split
    · exact keeps_runScript hrun _ _ _ _ p
    · exact keeps_of_files rfl
  · exact keeps_runScript hrun _ _ _ _ p.readAll.2

theorem keeps_runProgram (hrun : RunKeeps run) (program : Program) (arguments : List String) (p : Process) :
    p.Keeps (runProgram run program arguments p).1 := by
  unfold runProgram
  split
  · exact keeps_runScript hrun _ _ _ _ p
  · exact keeps_runShell hrun _ p
  · next name _ =>
    cases htool : Tool.runInstalled? name arguments p with
    | none => exact keeps_of_files rfl
    | some q => exact Tool.keeps_runInstalled? htool

theorem keeps_runFunction (hrun : RunKeeps run) (body : Node) (arguments : List String) (p : Process) :
    p.Keeps (runFunction run body arguments p).1 :=
  hrun body { p with arguments }

theorem keeps_runName (hrun : RunKeeps run) (line : Nat) (name : String) (arguments : List String) (p : Process) :
    p.Keeps (runName run line name arguments p).1 := by
  unfold runName
  split
  · next q htool => exact Tool.keeps_runBuiltin? htool
  · split
    · next program _ =>
      have hprogram := keeps_runProgram hrun program arguments p
      split <;>
      · next heq =>
        rw [heq] at hprogram
        exact hprogram
    · exact keeps_of_files rfl
    · exact keeps_of_files rfl

theorem keeps_kill (p : Process) (arguments : List String) : p.Keeps (kill p arguments).1 := by
  unfold kill
  split
  split
  · split <;> exact keeps_of_files rfl
  · exact keeps_of_files rfl

theorem keeps_exit (line : Nat) (p : Process) (arguments : List String) : p.Keeps (exit line p arguments) := by
  unfold exit
  split
  · exact .refl p
  · split <;> exact keeps_of_files rfl

theorem keeps_set (p : Process) (arguments : List String) : p.Keeps (set p arguments) := by
  unfold set
  split <;> exact keeps_of_files rfl

theorem keeps_runWords (hrun : RunKeeps run) (line : Nat) (p : Process) (words : List String) :
    p.Keeps (runWords run line p words).1 := by
  unfold runWords
  split
  · exact .refl p
  · exact keeps_exit line p _
  · exact keeps_exit line p _
  · exact keeps_of_files rfl
  · exact keeps_of_files rfl
  · exact keeps_kill p _
  · exact keeps_set p _
  · split
    · exact hrun _ p
    · exact keeps_of_files rfl
  · exact .refl p
  · split <;> exact keeps_of_files rfl
  · exact keeps_runName hrun line _ _ p
  · exact keeps_runName hrun line _ _ p
  · split
    · exact keeps_runFunction hrun _ _ p
    · exact keeps_runName hrun line _ _ p

theorem keeps_capturing (hrun : RunKeeps run) : (capturing run).Keeps := by
  intro script p
  unfold capturing
  split
  · exact .refl p
  · next n _ => exact keeps_leave (hrun.from n rfl)

theorem keeps_assignAll (hcapture : capture.Keeps) (assignments : List (String × Word)) (p : Process) :
    p.Keeps (assignAll capture assignments p) := by
  refine keeps_foldl id (fun q assignment => ?_) assignments p
  exact (keeps_joined hcapture q assignment.2).trans (keeps_of_files rfl)

theorem leavesFiles_giveBack (old : List (String × Option String)) : LeavesFiles (giveBack old) := fun p =>
  List.foldlRecOn (motive := fun q : Process => q.files = p.files) old _ rfl fun _ hq _ _ => hq

theorem keeps_runSimple (hrun : RunKeeps run) (line : Nat) (assignments : List (String × Word)) (words : List Word)
    (p : Process) : p.Keeps (runSimple run line assignments words p).1 := by
  have hcapture := keeps_capturing hrun
  have hstart : p.Keeps (if words.isEmpty then p.ended 0 else p) := by
    split <;> exact keeps_of_files rfl
  unfold runSimple
  generalize (if words.isEmpty then p.ended 0 else p) = start at hstart ⊢
  have hassigned := hstart.trans (keeps_assignAll hcapture assignments start)
  have hexpanded := hassigned.trans (keeps_expandAll hcapture _ words)
  dsimp only
  generalize expandAll (capturing run) (assignAll (capturing run) assignments start) words = expanded at hexpanded ⊢
  obtain ⟨q, texts⟩ := expanded
  have hran := hexpanded.trans ((keeps_of_files rfl).trans (keeps_runWords hrun line
    { q with exported := q.exported ++ assignments.map (·.1) } texts))
  refine hran.trans ?_
  split
  · exact keeps_of_files rfl
  · split
    · exact .refl _
    · exact keeps_of_files (leavesFiles_giveBack _ _)

theorem keeps_runRedirected (hrun : RunKeeps run) (body : Node) (redirections : List Redirection) (p : Process) :
    p.Keeps (runRedirected run body redirections p).1 := by
  have hopened := keeps_redirectAll (keeps_capturing hrun) p redirections
  unfold runRedirected
  split
  · next q e heq =>
    rw [heq] at hopened
    exact hopened
  · next q s heq =>
    rw [heq] at hopened
    dsimp only
    refine hopened.trans (.trans ?_ ((keeps_send _ _ _).trans (keeps_send _ _ _)))
    exact hrun.from body rfl

theorem keeps_runAfter (hrun : RunKeeps run) (first : Node) {next : Process → Ended}
    (hnext : ∀ p : Process, p.Keeps (next p).1) (p : Process) : p.Keeps (runAfter run first next p).1 := by
  unfold runAfter
  split
  · next q heq => exact (hrun.of_eq heq).trans (hnext q)
  · exact hrun first p

theorem keeps_runPipe (hrun : RunKeeps run) (first second : Node) (p : Process) :
    p.Keeps (runPipe run first second p).1 := by
  have hfirst : p.Keeps (leave p (run first { p with output := {} })).1 := keeps_leave (hrun.from first rfl)
  unfold runPipe
  split
  · next q ending heq =>
    rw [heq] at hfirst
    exact hfirst
  · next q heq =>
    rw [heq] at hfirst
    exact hfirst.trans (keeps_leave (hrun.from second rfl))

theorem keeps_runChoice (hrun : RunKeeps run) (subject : Word) (branches : List (List Word × Node)) (p : Process) :
    p.Keeps (runChoice run subject branches p).1 := by
  have hsubject := keeps_joined (keeps_capturing hrun) p subject
  unfold runChoice
  dsimp only
  split
  · exact hsubject.trans (hrun.from _ rfl)
  · exact hsubject

theorem keeps_runEach (hrun : RunKeeps run) (name : String) (items : List String) (body : Node) (p : Process) :
    p.Keeps (runEach run name items body p).1 := by
  unfold runEach
  refine keeps_foldl Prod.fst (fun state item => ?_) items (p.ended 0, none)
  obtain ⟨q, ending⟩ := state
  dsimp only
  split
  · exact .refl q
  · split
    · next r heq =>
      have hbody : (q.bind name (some item)).Keeps r := hrun.of_eq heq
      exact hbody
    · exact hrun.from body rfl

/-- A command keeps the directories if its parts do. -/
theorem keeps_runNode (hrun : RunKeeps run) : RunKeeps (runNode run) := by
  intro n p
  cases n with
  | nothing => exact .refl p
  | simple line assignments words => exact keeps_runSimple hrun line assignments words p
  | redirected body redirections => exact keeps_runRedirected hrun body redirections p
  | sequence first second =>
    unfold runNode
    dsimp only
    split
    · exact hrun _ p
    · refine keeps_runAfter hrun first (fun q => ?_) p
      split
      · exact .refl q
      · exact hrun second q
  | both first second =>
    refine keeps_runAfter hrun first (fun q => ?_) p
    split
    · exact hrun second q
    · exact .refl q
  | either first second =>
    refine keeps_runAfter hrun first (fun q => ?_) p
    split
    · exact .refl q
    · exact hrun second q
  | negated body => exact keeps_runAfter hrun body (fun q => keeps_of_files rfl) p
  | pipe first second => exact keeps_runPipe hrun first second p
  | apart body => exact keeps_leave (hrun body p)
  | choice subject branches => exact keeps_runChoice hrun subject branches p
  | branch condition yes no =>
    refine keeps_runAfter hrun condition (fun q => ?_) p
    split
    · exact hrun yes q
    · exact hrun.from no rfl
  | loop wanted condition body =>
    refine keeps_runAfter hrun condition (fun q => ?_) p
    split
    · split
      · next r heq => exact (hrun.of_eq heq).trans (hrun _ r)
      · next r heq => exact (hrun.of_eq heq).trans (hrun _ r)
      · next r heq => exact hrun.of_eq heq
      · exact hrun body q
    · exact keeps_of_files rfl
  | each name words body =>
    cases words with
    | none => exact keeps_runEach hrun name _ body p
    | some words => exact (keeps_expandAll (keeps_capturing hrun) p words).trans (keeps_runEach hrun name _ body _)
  | function name body => exact keeps_of_files rfl

/-- A script keeps the directories.  The rounds of a loop are less deep than the loop, like the parts of a command. -/
theorem keeps_evaluate (n : Node) (p : Process) (fuel : Nat) : p.Keeps (evaluate n p fuel).1 := by
  induction fuel generalizing n p with
  | zero => exact keeps_of_files rfl
  | succ fuel ih => exact keeps_runNode ih n p

/-! ### Programs -/

/-- A program that is started in another directory sees the same files. -/
theorem find?_of_enter {t inner : FileTree} {directory : Option Path} (h : enter t directory = .ok inner)
    (place : Place) : inner.find? place = t.find? place := by
  cases directory with
  | none =>
    cases h
    rfl
  | some d =>
    simp only [enter, bind, Except.bind] at h
    split at h
    · cases h
    · split at h
      · split at h
        · cases h
        · cases h
          rfl
      · cases h

/-- A program keeps the directories, and whoever starts it stays in its own. -/
theorem keeps_launch (search : List Path) (c : Command) (t : FileTree) :
    t.Keeps (launch search c t).2 ∧ (launch search c t).2.home = t.home := by
  unfold launch
  split
  · exact ⟨.refl t, rfl⟩
  · next inner program heq =>
    refine ⟨?_, rfl⟩
    have henter : enter t c.directory = .ok inner := by
      simp only [bind, Except.bind] at heq
      split at heq
      · cases heq
      · split at heq
        · cases heq
        · next files hfiles =>
          split at heq <;> cases heq
          exact hfiles
    have hrun : RunKeeps fun n p => evaluate n p depth := fun n p => keeps_evaluate n p depth
    have hprogram := keeps_runProgram hrun program c.arguments
      { files := inner, search, input := .ofText (c.input.getD "") }
    exact fun place hplace => hprogram place ((find?_of_enter henter place).trans hplace)

/-- The working directory still exists after any program has run. -/
theorem homeStands_runner (search : List Path) (c : Command) (s : Unit) {t : FileTree} (h : t.HomeStands) :
    ((runner search).run c s t).2.2.HomeStands := by
  obtain ⟨hkeeps, hhome⟩ := keeps_launch search c t
  have hfiles : ((runner search).run c s t).2.2 = (launch search c t).2 := by
    unfold runner
    dsimp only
    split
    · next heq => rw [heq]
    · next heq => rw [heq]
  rw [hfiles]
  exact hkeeps.homeStands hhome h

end Shell

end RosRecipes
