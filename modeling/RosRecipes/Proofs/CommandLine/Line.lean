import Mathlib.Data.List.TakeWhile
import RosRecipes.CommandLine.Arguments

/-!
# Written command lines

The arguments that are accepted are flags, settings with their values in either form, and manifests, which are all
that stands after two hyphens (`Line`).  Each of these is accepted on its own, in the order in which it stands
(`Arguments.acceptAll`).  So reading from left to right with something pending comes to accepting what is written:

* `Arguments.readFrom_eq_ok_iff`
-/

namespace RosRecipes.CommandLine

/-! ### Items -/

/-- What is asked for by one argument, or by the name of a setting and its value. -/
inductive Item where
  | flag (f : Flag)
  | value (s : Setting) (value : String)
  | manifest (path : String)
deriving DecidableEq, Repr

namespace Arguments

/-- Accepts an item.  Help and the version are not part of a run, and a manifest is not empty. -/
def acceptItem (a : Arguments) : Item → Except UsageFault Arguments
  | .flag .help => .error .help
  | .flag .version => .error .version
  | .flag f => a.acceptFlag f
  | .value s value => a.acceptValue s value
  | .manifest path => if path.isEmpty then .error .invalidValue else .ok { a with manifests := a.manifests ++ [path] }

def acceptAll (a : Arguments) (items : List Item) : Except UsageFault Arguments := items.foldlM acceptItem a

/-- What the arguments are with one item more. -/
def add (a : Arguments) : Item → Arguments
  | .flag f => { a with flags := (a.flags.filter fun g => some g ≠ f.opposite?) ++ [f] }
  | .value s value => { a with values := a.values ++ [(s, value)] }
  | .manifest path => { a with manifests := a.manifests ++ [path] }

/-- An item that is accepted is added, and a flag has not been there. -/
theorem eq_add_of_acceptItem {a b : Arguments} {i : Item} (h : a.acceptItem i = .ok b) :
    b = a.add i ∧ ∀ f, i = .flag f → a.has f = false := by
  cases i with
  | flag f =>
    have hflag : a.acceptFlag f = .ok b := by
      cases f with
      | help => cases h
      | version => cases h
      | _ => exact h
    unfold acceptFlag at hflag
    cases hhas : a.has f with
    | true =>
      rw [hhas] at hflag
      cases hflag
    | false =>
      rw [hhas] at hflag
      cases hflag
      exact ⟨rfl, fun _ hf => by cases hf; exact hhas⟩
  | value s value =>
    simp only [acceptItem, acceptValue] at h
    split at h
    · cases h
    · split at h <;> cases h
      exact ⟨rfl, nofun⟩
  | manifest path =>
    simp only [acceptItem] at h
    split at h <;> cases h
    exact ⟨rfl, nofun⟩

end Arguments

/-- How an item is written, as long as options are read. -/
inductive Piece where
  | flag (f : Flag)
  /-- A setting with its value after an equals sign. -/
  | joined (s : Setting) (value : String)
  /-- A setting with its value in the next argument. -/
  | separate (s : Setting) (value : String)
  | manifest (path : String)
deriving DecidableEq, Repr

namespace Piece

def item : Piece → Item
  | .flag f => .flag f
  | .joined s value => .value s value
  | .separate s value => .value s value
  | .manifest path => .manifest path

def arguments : Piece → List String
  | .flag f => ["--" ++ f.name]
  | .joined s value => ["--" ++ s.name ++ "=" ++ value]
  | .separate s value => ["--" ++ s.name, value]
  | .manifest path => [path]

/-- Values in an argument of their own, and manifests, do not look like options. -/
def Proper : Piece → Prop
  | .separate _ value => Arguments.Argument.of value = .word value
  | .manifest path => Arguments.Argument.of path = .word path
  | _ => True

instance : DecidablePred Proper
  | .separate _ value => inferInstanceAs (Decidable (Arguments.Argument.of value = .word value))
  | .manifest path => inferInstanceAs (Decidable (Arguments.Argument.of path = .word path))
  | .flag _ | .joined .. => isTrue trivial

end Piece

/-- A command line after the name of the program, as it is written. -/
structure Line where
  pieces : List Piece
  /-- The manifests after two hyphens, if these are given. -/
  ended : Option (List String) := none
deriving DecidableEq, Repr

namespace Line

def arguments (l : Line) : List String := l.pieces.flatMap Piece.arguments ++ l.ended.elim [] ("--" :: ·)

def items (l : Line) : List Item := l.pieces.map Piece.item ++ (l.ended.getD []).map .manifest

def Proper (l : Line) : Prop := ∀ p ∈ l.pieces, p.Proper

instance (l : Line) : Decidable l.Proper := inferInstanceAs (Decidable (∀ p ∈ l.pieces, p.Proper))

def cons (p : Piece) (l : Line) : Line := { l with pieces := p :: l.pieces }

theorem arguments_cons (p : Piece) (l : Line) : (l.cons p).arguments = p.arguments ++ l.arguments := by
  simp [cons, arguments]

theorem items_cons (p : Piece) (l : Line) : (l.cons p).items = p.item :: l.items := rfl

theorem Proper.cons {p : Piece} {l : Line} (hp : p.Proper) (hl : l.Proper) : (l.cons p).Proper :=
  List.forall_mem_cons.2 ⟨hp, hl⟩

end Line

namespace Arguments

variable {a b : Arguments} {text name : String} {f : Flag} {s : Setting}

/-! ### What an argument is -/

private theorem toList_dashes (s : String) : ("--" ++ s).toList = '-' :: '-' :: s.toList := String.toList_append

private theorem of_dashes (hne : name.toList ≠ []) :
    Argument.of ("--" ++ name) =
      match name.toList.dropWhile (· ≠ '=') with
      | _ :: value => .option (.ofList (name.toList.takeWhile (· ≠ '='))) (some (.ofList value))
      | [] => .option name none := by
  obtain ⟨c, rest, hname⟩ := List.exists_cons_of_ne_nil hne
  have hofList : String.ofList (c :: rest) = name := by rw [← hname, String.ofList_toList]
  unfold Argument.of
  rw [toList_dashes, hname, ← hofList]
  rfl

private theorem ne_equals (h : '=' ∉ name.toList) : ∀ c ∈ name.toList, decide (c ≠ '=') = true := by
  intro c hc
  rw [decide_eq_true_iff]
  rintro rfl
  exact h hc

theorem of_name (hne : name.toList ≠ []) (h : '=' ∉ name.toList) : Argument.of ("--" ++ name) = .option name none := by
  have hdrop : name.toList.dropWhile (· ≠ '=') = [] := List.dropWhile_eq_nil_iff.2 (ne_equals h)
  rw [of_dashes hne, hdrop]

theorem of_joined (h : '=' ∉ name.toList) (value : String) :
    Argument.of ("--" ++ name ++ "=" ++ value) = .option name (some value) := by
  have htext : (name ++ "=" ++ value).toList = name.toList ++ '=' :: value.toList := by
    simp [String.toList_append]
  have hlong : (name ++ "=" ++ value).toList ≠ [] := by simp [htext]
  have hassoc : "--" ++ name ++ "=" ++ value = "--" ++ (name ++ "=" ++ value) := by simp [String.append_assoc]
  rw [hassoc, of_dashes hlong, htext, List.dropWhile_append_of_pos (ne_equals h),
    List.takeWhile_append_of_pos (ne_equals h)]
  simp

theorem eq_of_word {t : String} (h : Argument.of text = .word t) : t = text := by
  unfold Argument.of at h
  split at h
  · cases h
  · split at h <;> cases h
  · cases h
  · cases h
    rfl

theorem eq_of_endOfOptions (h : Argument.of text = .endOfOptions) : text = "--" := by
  unfold Argument.of at h
  split at h
  · next htext => exact String.toList_inj.1 htext
  · split at h <;> cases h
  · cases h
  · cases h

theorem eq_of_option {value : Option String} (h : Argument.of text = .option name value) :
    text = "--" ++ name ++ value.elim "" ("=" ++ ·) := by
  unfold Argument.of at h
  split at h
  · cases h
  · next rest hne htext =>
    have hrest : text = "--" ++ .ofList rest := by
      rw [← String.toList_inj, toList_dashes, String.toList_ofList, htext]
    have hcut : rest.takeWhile (· ≠ '=') ++ rest.dropWhile (· ≠ '=') = rest := List.takeWhile_append_dropWhile
    have hnot := List.head?_dropWhile_not (· ≠ '=') rest
    split at h
    · next c value' hdrop =>
      rw [hdrop] at hcut hnot
      cases h
      have hc : c = '=' := by simpa using hnot
      subst hc
      have htoList : (String.ofList rest).toList = rest.takeWhile (· ≠ '=') ++ '=' :: value' := by
        rw [String.toList_ofList, hcut]
      rw [hrest, ← String.toList_inj, String.toList_append, htoList]
      simp [String.toList_append]
    · cases h
      rw [hrest]
      simp
  · cases h
  · cases h

/-! ### Reading -/

/-- What is pending, if it is complete. -/
def pendingItems : Pending → List Item
  | .nothing => []
  | .setting _ none => []
  | .setting s (some value) => [.value s value]
  | .manifests paths => paths.map .manifest

def Awaits (pending : Pending) : Prop := ∃ s, pending = .setting s none

private theorem bind_eq_ok {α β : Type} {x : Except UsageFault α} {f : α → Except UsageFault β} {y : β} :
    x >>= f = .ok y ↔ ∃ z, x = .ok z ∧ f z = .ok y := by
  cases x with
  | error e => simp [bind, Except.bind]
  | ok z => simp [bind, Except.bind]

theorem map_eq_ok {α β : Type} {x : Except UsageFault α} {f : α → β} {y : β} :
    x.map f = .ok y ↔ ∃ z, x = .ok z ∧ f z = y := by
  cases x with
  | error e => simp [Except.map]
  | ok z => simp [Except.map]

theorem acceptAll_cons {i : Item} {items : List Item} :
    a.acceptAll (i :: items) = .ok b ↔ ∃ a', a.acceptItem i = .ok a' ∧ a'.acceptAll items = .ok b := by
  rw [acceptAll, List.foldlM_cons]
  exact bind_eq_ok

theorem acceptAll_singleton (i : Item) : a.acceptAll [i] = a.acceptItem i := by
  rw [acceptAll, List.foldlM_cons]
  exact bind_pure _

theorem acceptAll_append {items items' : List Item} :
    a.acceptAll (items ++ items') = .ok b ↔ ∃ a', a.acceptAll items = .ok a' ∧ a'.acceptAll items' = .ok b := by
  rw [acceptAll, List.foldlM_append]
  exact bind_eq_ok

private theorem acceptAll_manifests (paths : List String) :
    a.acceptAll (paths.map .manifest) = .ok b ↔
      paths.any (·.isEmpty) = false ∧ { a with manifests := a.manifests ++ paths } = b := by
  induction paths generalizing a with
  | nil =>
    rw [List.map_nil, acceptAll, List.foldlM_nil, List.append_nil]
    exact ⟨fun h => ⟨rfl, Except.ok.inj h⟩, fun h => congrArg Except.ok h.2⟩
  | cons path paths ih =>
    rw [List.map_cons, acceptAll_cons, List.any_cons]
    cases hpath : path.isEmpty with
    | true => simp [acceptItem, hpath]
    | false =>
      have hitem : a.acceptItem (.manifest path) = .ok { a with manifests := a.manifests ++ [path] } := by
        simp [acceptItem, hpath]
      simp [hitem, ih]

/-- What is pending is accepted as the items that it holds. -/
theorem accept_eq_ok_iff {pending : Pending} (h : ¬ Awaits pending) :
    a.accept pending = .ok b ↔ a.acceptAll (pendingItems pending) = .ok b := by
  cases pending with
  | nothing => exact Iff.rfl
  | setting s value =>
    cases value with
    | none => exact absurd ⟨s, rfl⟩ h
    | some value =>
      rw [pendingItems, acceptAll_cons, acceptItem, accept]
      constructor
      · exact fun h => ⟨b, h, rfl⟩
      · rintro ⟨a', h, hb⟩
        exact h.trans hb
  | manifests paths =>
    rw [pendingItems, acceptAll_manifests, accept]
    cases paths.any (·.isEmpty) with
    | true => simp
    | false => simp

/-- An option is read after what is pending is accepted. -/
private theorem readOption_eq_ok {pending : Pending} {value : Option String} {r : Arguments × Pending} :
    a.readOption pending name value = .ok r ↔
      ∃ a', a.accept pending = .ok a' ∧ a'.readOption .nothing name value = .ok r := by
  unfold readOption
  cases hflag : Flag.ofName? name with
  | some f =>
    cases value with
    | some value => simp
    | none => exact bind_eq_ok
  | none =>
    cases hsetting : Setting.ofName? name with
    | some s => exact bind_eq_ok
    | none => simp

/-- The letters ask for help or the version, so they end the reading. -/
private theorem readFlag_of_letter {pending : Pending} {c : Char} (h : Flag.ofLetter? c = some f)
    {r : Arguments × Pending} : a.readFlag pending f ≠ .ok r := by
  intro hread
  obtain ⟨a', -, hread⟩ := bind_eq_ok.1 hread
  unfold Flag.ofLetter? at h
  split at h <;> cases h <;> cases hread

private theorem readFrom_letters {pending : Pending} {c : Char} {rest : List String}
    (h : Argument.of text = .letters c) : a.readFrom pending (text :: rest) ≠ .ok b := by
  intro hread
  rw [readFrom, h] at hread
  dsimp only at hread
  cases hflag : Flag.ofLetter? c with
  | none =>
    rw [hflag] at hread
    cases hread
  | some f =>
    rw [hflag] at hread
    obtain ⟨r, hr, -⟩ := bind_eq_ok.1 hread
    exact readFlag_of_letter hflag hr

private theorem readManifest_of_ne {pending : Pending} (h : ∀ paths, pending ≠ .manifests paths) (path : String) :
    a.readManifest pending path = (a.accept pending).map (·, .manifests [path]) := by
  unfold readManifest
  split
  · next paths => exact absurd rfl (h paths)
  · cases a.accept pending <;> rfl

private theorem not_awaits_of_readManifest {pending : Pending} {path : String} {r : Arguments × Pending}
    (hr : a.readManifest pending path = .ok r) : ¬ Awaits r.2 := by
  by_cases hpending : ∃ paths, pending = .manifests paths
  · obtain ⟨paths, rfl⟩ := hpending
    cases hr
    exact nofun
  · rw [readManifest_of_ne (not_exists.1 hpending)] at hr
    obtain ⟨a', -, rfl⟩ := map_eq_ok.1 hr
    exact nofun

/-- A manifest is accepted after what is pending, whatever comes after it. -/
private theorem readManifest_accepts {pending : Pending} (h : ¬ Awaits pending) (path : String) (items : List Item) :
    (∃ r, a.readManifest pending path = .ok r ∧ r.1.acceptAll (pendingItems r.2 ++ items) = .ok b) ↔
      a.acceptAll (pendingItems pending ++ .manifest path :: items) = .ok b := by
  by_cases hpending : ∃ paths, pending = .manifests paths
  · obtain ⟨paths, rfl⟩ := hpending
    have hitems : pendingItems (.manifests (paths ++ [path])) ++ items =
        pendingItems (.manifests paths) ++ .manifest path :: items := by
      simp [pendingItems]
    rw [← hitems]
    exact ⟨fun ⟨r, hr, hall⟩ => by cases hr; exact hall, fun hall => ⟨_, rfl, hall⟩⟩
  · rw [readManifest_of_ne (not_exists.1 hpending), acceptAll_append]
    constructor
    · rintro ⟨r, hr, hall⟩
      obtain ⟨a', haccept, rfl⟩ := map_eq_ok.1 hr
      exact ⟨a', (accept_eq_ok_iff h).1 haccept, hall⟩
    · rintro ⟨a', haccept, hall⟩
      rw [(accept_eq_ok_iff h).2 haccept]
      exact ⟨_, rfl, hall⟩

/-- All that stands after two hyphens is accepted after what is pending. -/
private theorem readManifests_accept {pending : Pending} (h : ¬ Awaits pending) (paths : List String) :
    (paths.foldlM (fun x path => x.1.readManifest x.2 path) (a, pending) >>= fun x => x.1.accept x.2) = .ok b ↔
      a.acceptAll (pendingItems pending ++ paths.map .manifest) = .ok b := by
  induction paths generalizing a pending with
  | nil =>
    rw [List.map_nil, List.append_nil]
    exact accept_eq_ok_iff h
  | cons path paths ih =>
    rw [List.foldlM_cons, bind_assoc, bind_eq_ok, List.map_cons, ← readManifest_accepts h]
    constructor
    · rintro ⟨r, hr, hall⟩
      exact ⟨r, hr, (ih (not_awaits_of_readManifest hr)).1 hall⟩
    · rintro ⟨r, hr, hall⟩
      exact ⟨r, hr, (ih (not_awaits_of_readManifest hr)).2 hall⟩

private theorem not_awaits_nothing : ¬ Awaits .nothing := nofun

private theorem readFrom_word {pending : Pending} {t : String} {rest : List String} (h : Argument.of text = .word t)
    (hpending : ¬ Awaits pending) :
    a.readFrom pending (text :: rest) = .ok b ↔
      ∃ r, a.readManifest pending t = .ok r ∧ r.1.readFrom r.2 rest = .ok b := by
  rw [readFrom, h]
  dsimp only
  split
  · next s => exact absurd ⟨s, rfl⟩ hpending
  · exact bind_eq_ok

/-- What is pending may be accepted before the next argument is read. -/
private theorem readFrom_pending {pending : Pending} (h : ¬ Awaits pending) {args : List String} :
    a.readFrom pending args = .ok b ↔ ∃ a', a.accept pending = .ok a' ∧ a'.readFrom .nothing args = .ok b := by
  -- All arguments but words accept what is pending at once; words may only be added to it, which is left to the rest.
  induction args generalizing a pending with
  | nil => simp [readFrom, accept]
  | cons text rest ih =>
    cases harg : Argument.of text with
    | endOfOptions =>
      have hread : ∀ (a : Arguments) {pending}, ¬ Awaits pending → (a.readFrom pending (text :: rest) = .ok b ↔
          a.acceptAll (pendingItems pending ++ rest.map .manifest) = .ok b) := by
        intro a pending hpending
        rw [← readManifests_accept hpending, readFrom, harg]
      rw [hread a h, acceptAll_append]
      simp only [hread _ not_awaits_nothing, accept_eq_ok_iff h]
      rfl
    | option name value =>
      have hread : ∀ (a : Arguments) pending, a.readFrom pending (text :: rest) = .ok b ↔
          ∃ r, a.readOption pending name value = .ok r ∧ r.1.readFrom r.2 rest = .ok b := by
        intro a pending
        rw [readFrom, harg]
        exact bind_eq_ok
      simp only [hread]
      constructor
      · rintro ⟨r, hr, hrest⟩
        obtain ⟨a', haccept, hr⟩ := readOption_eq_ok.1 hr
        exact ⟨a', haccept, r, hr, hrest⟩
      · rintro ⟨a', haccept, r, hr, hrest⟩
        exact ⟨r, readOption_eq_ok.2 ⟨a', haccept, hr⟩, hrest⟩
    | letters first =>
      exact iff_of_false (readFrom_letters harg) fun ⟨a', _, hread⟩ => readFrom_letters harg hread
    | word t =>
      -- Either way the word is pending at last, after the same items.
      have hread : ∀ (a : Arguments) {pending}, ¬ Awaits pending → (a.readFrom pending (text :: rest) = .ok b ↔
          ∃ a', a.acceptAll (pendingItems pending ++ [.manifest t]) = .ok a' ∧ a'.readFrom .nothing rest = .ok b) := by
        intro a pending hpending
        rw [readFrom_word harg hpending]
        simp only [← readManifest_accepts hpending, List.append_nil]
        constructor
        · rintro ⟨r, hr, hrest⟩
          have hr' := not_awaits_of_readManifest hr
          obtain ⟨a', haccept, hrest⟩ := (ih hr').1 hrest
          exact ⟨a', ⟨r, hr, (accept_eq_ok_iff hr').1 haccept⟩, hrest⟩
        · rintro ⟨a', ⟨r, hr, hall⟩, hrest⟩
          have hr' := not_awaits_of_readManifest hr
          exact ⟨r, hr, (ih hr').2 ⟨a', (accept_eq_ok_iff hr').2 hall, hrest⟩⟩
      rw [hread a h]
      simp only [hread _ not_awaits_nothing, accept_eq_ok_iff h, acceptAll_append]
      constructor
      · rintro ⟨a', ⟨a₁, hpending, ht⟩, hrest⟩
        exact ⟨a₁, hpending, a', ⟨a₁, rfl, ht⟩, hrest⟩
      · rintro ⟨a₁, hpending, a', ⟨a₂, hnothing, ht⟩, hrest⟩
        cases hnothing
        exact ⟨a', ⟨a₁, hpending, ht⟩, hrest⟩

/-- Where a value is awaited, the next argument has to be one. -/
private theorem readFrom_awaiting {args : List String} :
    a.readFrom (.setting s none) args = .ok b ↔
      ∃ value rest, args = value :: rest ∧ Argument.of value = .word value ∧
        ∃ a', a.acceptValue s value = .ok a' ∧ a'.readFrom .nothing rest = .ok b := by
  have hnone : ∀ a' : Arguments, a.accept (.setting s none) ≠ .ok a' := nofun
  cases args with
  | nil => simp [readFrom, hnone]
  | cons text rest =>
    have hword : (∀ t, Argument.of text ≠ .word t) → ¬ ∃ value rest', text :: rest = value :: rest' ∧
        Argument.of value = .word value ∧ ∃ a', a.acceptValue s value = .ok a' ∧
        a'.readFrom .nothing rest' = .ok b := by
      rintro hother ⟨value, rest', heq, hvalue, -⟩
      cases heq
      exact hother text hvalue
    cases harg : Argument.of text with
    | word t =>
      obtain rfl := eq_of_word harg
      have hread : a.readFrom (.setting s none) (t :: rest) = a.readFrom (.setting s (some t)) rest := by
        rw [readFrom, harg]
      rw [hread, readFrom_pending (by rintro ⟨s', ⟨⟩⟩)]
      constructor
      · exact fun h => ⟨t, rest, rfl, harg, h⟩
      · rintro ⟨value, rest', heq, -, h⟩
        cases heq
        exact h
    | letters first => exact iff_of_false (readFrom_letters harg) (hword (by simp [harg]))
    | option name value =>
      refine iff_of_false (fun hread => ?_) (hword (by simp [harg]))
      rw [readFrom, harg] at hread
      obtain ⟨r, hr, -⟩ := bind_eq_ok.1 hread
      obtain ⟨a', haccept, -⟩ := readOption_eq_ok.1 hr
      exact hnone a' haccept
    | endOfOptions =>
      refine iff_of_false (fun hread => ?_) (hword (by simp [harg]))
      rw [readFrom, harg] at hread
      cases rest <;> cases hread

/-! ### What is read -/

theorem ofName?_flag (f : Flag) : Flag.ofName? f.name = some f := by cases f <;> decide

theorem ofName?_setting (s : Setting) : Flag.ofName? s.name = none ∧ Setting.ofName? s.name = some s := by
  cases s <;> decide

private theorem name_of_flag (h : Flag.ofName? name = some f) : f.name = name := by
  simpa using List.find?_some h

private theorem name_of_setting (h : Setting.ofName? name = some s) : s.name = name := by
  simpa using List.find?_some h

theorem plain_flag (f : Flag) : f.name.toList ≠ [] ∧ '=' ∉ f.name.toList := by cases f <;> decide

theorem plain_setting (s : Setting) : s.name.toList ≠ [] ∧ '=' ∉ s.name.toList := by cases s <;> decide

private theorem bind_pure_eq_map {α β : Type} (x : Except UsageFault α) (g : α → β) :
    (x >>= fun z => pure (g z)) = x.map g := by
  cases x <;> rfl

private theorem readFlag_nothing (a : Arguments) (f : Flag) :
    a.readFlag .nothing f = (a.acceptItem (.flag f)).map (·, .nothing) := by
  cases f with
  | help => rfl
  | version => rfl
  | _ => exact bind_pure_eq_map _ _

/-- Where nothing is pending after an item, the rest is read. -/
private theorem exists_map_nothing {x : Except UsageFault Arguments} {rest : List String} :
    (∃ r : Arguments × Pending, x.map (·, .nothing) = .ok r ∧ r.1.readFrom r.2 rest = .ok b) ↔
      ∃ a', x = .ok a' ∧ a'.readFrom .nothing rest = .ok b := by
  constructor
  · rintro ⟨r, hr, hrest⟩
    obtain ⟨a', ha, rfl⟩ := map_eq_ok.1 hr
    exact ⟨a', ha, hrest⟩
  · rintro ⟨a', rfl, hrest⟩
    exact ⟨_, rfl, hrest⟩

private theorem readFrom_flag {rest : List String} :
    a.readFrom .nothing (("--" ++ f.name) :: rest) = .ok b ↔
      ∃ a', a.acceptItem (.flag f) = .ok a' ∧ a'.readFrom .nothing rest = .ok b := by
  have hread : a.readOption .nothing f.name none = a.readFlag .nothing f := by
    rw [readOption, ofName?_flag]
    rfl
  rw [readFrom, of_name (plain_flag f).1 (plain_flag f).2]
  dsimp only
  rw [bind_eq_ok, hread, readFlag_nothing]
  exact exists_map_nothing

private theorem readFrom_joined {value : String} {rest : List String} :
    a.readFrom .nothing (("--" ++ s.name ++ "=" ++ value) :: rest) = .ok b ↔
      ∃ a', a.acceptItem (.value s value) = .ok a' ∧ a'.readFrom .nothing rest = .ok b := by
  have hread : a.readOption .nothing s.name (some value) = (a.acceptValue s value).map (·, .nothing) := by
    rw [readOption, (ofName?_setting s).1, (ofName?_setting s).2]
    exact bind_pure_eq_map _ _
  rw [readFrom, of_joined (plain_setting s).2]
  dsimp only
  rw [bind_eq_ok, hread, acceptItem]
  exact exists_map_nothing

private theorem readFrom_separate {rest : List String} :
    a.readFrom .nothing (("--" ++ s.name) :: rest) = .ok b ↔ a.readFrom (.setting s none) rest = .ok b := by
  have hread : a.readOption .nothing s.name none = .ok (a, .setting s none) := by
    rw [readOption, (ofName?_setting s).1, (ofName?_setting s).2]
    rfl
  rw [readFrom, of_name (plain_setting s).1 (plain_setting s).2]
  dsimp only
  rw [hread]
  rfl

private theorem readFrom_manifest {path : String} {rest : List String} (h : Argument.of path = .word path) :
    a.readFrom .nothing (path :: rest) = .ok b ↔
      ∃ a', a.acceptItem (.manifest path) = .ok a' ∧ a'.readFrom .nothing rest = .ok b := by
  rw [readFrom_word h not_awaits_nothing]
  have hread : a.readManifest .nothing path = .ok (a, .manifests [path]) := rfl
  have hpending : ¬ Awaits (.manifests [path]) := nofun
  rw [hread]
  simp only [Except.ok.injEq, exists_eq_left']
  rw [readFrom_pending hpending]
  simp only [accept_eq_ok_iff hpending, pendingItems, List.map_cons, List.map_nil, acceptAll_singleton]

private theorem readFrom_ended {paths : List String} :
    a.readFrom .nothing ("--" :: paths) = .ok b ↔ a.acceptAll (paths.map .manifest) = .ok b := by
  rw [← List.nil_append (paths.map _)]
  exact readManifests_accept not_awaits_nothing paths

private theorem readFrom_piece {p : Piece} (hp : p.Proper) {rest : List String} :
    a.readFrom .nothing (p.arguments ++ rest) = .ok b ↔
      ∃ a', a.acceptItem p.item = .ok a' ∧ a'.readFrom .nothing rest = .ok b := by
  cases p with
  | flag f => exact readFrom_flag
  | joined s value => exact readFrom_joined
  | separate s value =>
    refine (readFrom_separate.trans readFrom_awaiting).trans ⟨?_, fun h => ⟨value, rest, rfl, hp, h⟩⟩
    rintro ⟨value', rest', heq, -, h⟩
    cases heq
    exact h
  | manifest path => exact readFrom_manifest hp

/-- An option that is read is the name of a flag, without a value, or the name of a setting. -/
private theorem known_of_readOption {pending : Pending} {value : Option String} {r : Arguments × Pending}
    (h : a.readOption pending name value = .ok r) :
    (∃ f : Flag, f.name = name ∧ value = none) ∨ ∃ s : Setting, s.name = name := by
  unfold readOption at h
  cases hflag : Flag.ofName? name with
  | some f =>
    rw [hflag] at h
    cases value with
    | none => exact .inl ⟨f, name_of_flag hflag, rfl⟩
    | some value => cases h
  | none =>
    rw [hflag] at h
    cases hsetting : Setting.ofName? name with
    | some s => exact .inr ⟨s, name_of_setting hsetting⟩
    | none =>
      rw [hsetting] at h
      cases h

/-- What is not empty begins with a piece, or with the two hyphens that end the options. -/
private theorem exists_piece {rest : List String} (h : a.readFrom .nothing (text :: rest) = .ok b) :
    text = "--" ∨ ∃ p : Piece, p.Proper ∧ ∃ rest', text :: rest = p.arguments ++ rest' := by
  cases harg : Argument.of text with
  | endOfOptions => exact .inl (eq_of_endOfOptions harg)
  | letters first => exact absurd h (readFrom_letters harg)
  | word t =>
    obtain rfl := eq_of_word harg
    exact .inr ⟨.manifest t, harg, rest, rfl⟩
  | option name value =>
    have htext := eq_of_option harg
    have hread := h
    rw [readFrom, harg] at hread
    obtain ⟨r, hr, -⟩ := bind_eq_ok.1 hread
    right
    rcases known_of_readOption hr with ⟨f, rfl, rfl⟩ | ⟨s, rfl⟩
    · refine ⟨.flag f, trivial, rest, ?_⟩
      simp [htext, Piece.arguments]
    · cases value with
      | some value =>
        refine ⟨.joined s value, trivial, rest, ?_⟩
        simp [htext, Piece.arguments, String.append_assoc]
      | none =>
        have hname : text = "--" ++ s.name := by simpa using htext
        rw [hname] at h ⊢
        obtain ⟨value, rest', rfl, hvalue, -⟩ := readFrom_awaiting.1 (readFrom_separate.1 h)
        exact ⟨.separate s value, hvalue, rest', rfl⟩

private theorem length_arguments_pos (p : Piece) : 0 < p.arguments.length := by
  cases p <;> exact Nat.succ_pos _

theorem readFrom_line {l : Line} (hl : l.Proper) :
    a.readFrom .nothing l.arguments = .ok b ↔ a.acceptAll l.items = .ok b := by
  obtain ⟨pieces, ended⟩ := l
  induction pieces generalizing a with
  | nil =>
    cases ended with
    | none => exact Iff.rfl
    | some paths => exact readFrom_ended
  | cons p pieces ih =>
    obtain ⟨hp, hpieces⟩ := List.forall_mem_cons.1 hl
    change a.readFrom .nothing (Line.cons p ⟨pieces, ended⟩).arguments = .ok b ↔
      a.acceptAll (Line.cons p ⟨pieces, ended⟩).items = .ok b
    rw [Line.arguments_cons, Line.items_cons, readFrom_piece hp, acceptAll_cons]
    simp only [ih hpieces]

/-- All that is read is written as a line. -/
theorem exists_line {a b : Arguments} {args : List String} (h : a.readFrom .nothing args = .ok b) :
    ∃ l : Line, l.Proper ∧ l.arguments = args := by
  match args, h with
  | [], _ => exact ⟨⟨[], none⟩, nofun, rfl⟩
  | text :: rest, h =>
    rcases exists_piece h with rfl | ⟨p, hp, rest', heq⟩
    · exact ⟨⟨[], some rest⟩, nofun, rfl⟩
    · have hlength := congrArg List.length heq
      rw [List.length_append] at hlength
      have hpos := length_arguments_pos p
      rw [heq] at h
      obtain ⟨a', -, hrest⟩ := (readFrom_piece hp).1 h
      obtain ⟨l, hl, hargs⟩ := exists_line hrest
      refine ⟨l.cons p, hl.cons hp, ?_⟩
      rw [Line.arguments_cons, hargs, heq]
termination_by args.length
decreasing_by
  rw [List.length_append] at hlength
  omega

/-- Reading comes to accepting what is written, item by item. -/
theorem readFrom_eq_ok_iff {args : List String} :
    a.readFrom .nothing args = .ok b ↔
      ∃ l : Line, l.Proper ∧ l.arguments = args ∧ a.acceptAll l.items = .ok b := by
  constructor
  · intro h
    obtain ⟨l, hl, rfl⟩ := exists_line h
    exact ⟨l, hl, rfl, (readFrom_line hl).1 h⟩
  · rintro ⟨l, hl, rfl, h⟩
    exact (readFrom_line hl).2 h

end Arguments

end RosRecipes.CommandLine
