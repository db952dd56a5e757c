import RosRecipes.Proofs.Generation.Draft
import RosRecipes.Proofs.PackageSet

/-!
# The files beside the recipes

What is emitted beside the recipes is known before: the files that are asked for, each with a content that depends on
the packages and the configuration only (`emits_topLevel`).  Of the packages, the text of the overlay has the names with
their files, and the text of the shell has the dependencies that are no packages; so each package and each dependency is
accounted for once (`topLevel_accounts`).
-/

namespace RosRecipes

variable {σ α : Type}

namespace Action

/-- The action emits these files with these contents, in this order.  If it fails, it does not come to all of them: one
of them is refused, or there is a fault of the given kind. -/
def Emits (faults : Error → Prop) (a : Action σ Unit) (planned : List (Path × ByteArray)) : Prop :=
  ∀ w, ∃ added, (a.perform w).2.emitted = w.emitted ++ added ∧
    added.map (fun e => (e.path, e.content)) <+: planned ∧
    ((a.perform w).1 = .ok () → added = planned.map fun (p, content) => ⟨p, content, false⟩) ∧
    ∀ e, (a.perform w).1 = .error e → (∃ em ∈ added, em.refused = true) ∨ faults e

section

variable {faults : Error → Prop} {planned later : List (Path × ByteArray)}

theorem Emits.nothing : Emits faults (pure () : Action σ Unit) [] :=
  fun _ => ⟨[], (List.append_nil _).symm, List.prefix_refl _, fun _ => rfl, nofun⟩

theorem Emits.throw {e : Error} (he : faults e) : Emits faults (throw e : Action σ Unit) planned := by
  refine fun _ => ⟨[], (List.append_nil _).symm, List.nil_prefix, nofun, fun e' he' => ?_⟩
  cases he'
  exact .inr he

theorem Emits.emit (p : Path) (content : ByteArray) :
    Emits faults (emit p content : Action σ Unit) [(p, content)] := by
  intro w
  refine ⟨_, (emitted_emit p content w).1, List.prefix_refl _, fun hok => ?_, fun e he => .inl ?_⟩
  · rw [hok]
    rfl
  · rw [he]
    exact ⟨_, List.mem_singleton_self _, rfl⟩

/-- What comes after an action is emitted after it. -/
theorem Emits.bind {a b : Action σ Unit} (ha : Emits faults a planned) (hb : Emits faults b later) :
    Emits faults (a >>= fun _ => b) (planned ++ later) := by
  intro w
  obtain ⟨added, hadded, hprefix, hall, hfails⟩ := ha w
  cases hr : (a.perform w).1 with
  | error e =>
    rw [perform_bind_error hr]
    refine ⟨added, hadded, hprefix.trans (List.prefix_append _ _), nofun, fun e' he' => ?_⟩
    cases he'
    exact hfails e hr
  | ok x =>
    rw [perform_bind_ok hr]
    obtain ⟨more, hmore, hprefix', hall', hfails'⟩ := hb (a.perform w).2
    have hplanned := hall hr
    refine ⟨added ++ more, by rw [hmore, hadded, List.append_assoc], ?_, fun hok => ?_, fun e he => ?_⟩
    · have hcontents : added.map (fun e => (e.path, e.content)) = planned := by
        rw [hplanned, List.map_map]
        exact List.map_id' _
      rw [List.map_append, hcontents, List.prefix_append_right_inj]
      exact hprefix'
    · rw [hplanned, hall' hok, List.map_append]
    · refine (hfails' e he).imp_left ?_
      rintro ⟨em, hem, hrefused⟩
      exact ⟨em, List.mem_append_right _ hem, hrefused⟩

theorem Emits.ofExcept_bind {r : Except Error α} {f : α → Action σ Unit} (hfault : ∀ e, r = .error e → faults e)
    (h : ∀ x, r = .ok x → Emits faults (f x) planned) : Emits faults (ofExcept r >>= f) planned := by
  cases r with
  | error e => exact .throw (hfault e rfl)
  | ok x => exact h x rfl

end

end Action

open Action (Emits)

namespace Job

variable {job : Job σ} {packages : List GeneratedPackage}

/-- The file to which the overlay refers for a package. -/
def entryOf (job : Job σ) (p : GeneratedPackage) : String := job.configuration.overlayEntry p.outputFile

/-- The overlay of some packages. -/
def overlayText (job : Job σ) (packages : List GeneratedPackage) : String :=
  PackageSet.overlay (PackageSet.overlayEntries (packages.map fun p => (p.name, job.entryOf p)))

/-- The package set below the overlay as Nix expression, if it has one. -/
def reference (job : Job σ) : String :=
  (Configuration.expressionOf job.configuration.overlayReference).toOption.getD ""

/-- The shell of some packages. -/
def shellText (job : Job σ) (packages : List GeneratedPackage) : String :=
  let c := job.configuration
  PackageSet.shell job.reference c.distribution (PackageSet.external packages).toList c.commandLine

/-- A file beside the recipes with its content, if it is asked for. -/
def topContent (job : Job σ) (asked : Bool) (name text : String) : List (Path × ByteArray) :=
  if asked then [(job.configuration.topDirectory / name, text.toUTF8)] else []

/-- The files beside the recipes that are asked for, with their contents. -/
def topContents (job : Job σ) (packages : List GeneratedPackage) : List (Path × ByteArray) :=
  let c := job.configuration
  job.topContent c.overlay "overlay.nix" (job.overlayText packages) ++
    (job.topContent c.shell "shell.nix" (job.shellText packages) ++
      (job.topContent c.flake "flake.nix" (PackageSet.flake c.overlayReference c.distribution) ++
        job.topContent c.writesDefault "default.nix" (PackageSet.default job.reference)))

theorem overlay_mem_topContents (h : job.configuration.overlay = true) :
    (job.configuration.topDirectory / "overlay.nix", (job.overlayText packages).toUTF8) ∈ job.topContents packages := by
  unfold topContents topContent
  dsimp only
  rw [h, if_pos rfl]
  exact List.mem_append_left _ (List.mem_singleton_self _)

theorem shell_mem_topContents (h : job.configuration.shell = true) :
    (job.configuration.topDirectory / "shell.nix", (job.shellText packages).toUTF8) ∈ job.topContents packages := by
  unfold topContents topContent
  dsimp only
  rw [h, if_pos rfl]
  exact List.mem_append_right _ (List.mem_append_left _ (List.mem_singleton_self _))

/-- The package set below the overlay has no Nix expression. -/
def LacksReference (job : Job σ) (e : Error) : Prop :=
  Configuration.expressionOf job.configuration.overlayReference = .error e

private theorem emits_top {asked : Bool} {name text : String} {a : Action σ Unit}
    (h : Emits job.LacksReference a [(job.configuration.topDirectory / name, text.toUTF8)]) :
    Emits job.LacksReference (if asked then a else pure ()) (job.topContent asked name text) := by
  cases asked with
  | true => exact h
  | false => exact .nothing

/-- What needs the package set below the overlay is emitted only if it has an expression. -/
private theorem emits_with_reference (name : String) (text : String → String) :
    Emits job.LacksReference
      (Action.ofExcept (Configuration.expressionOf job.configuration.overlayReference) >>= fun overlay =>
        job.emitTop name (text overlay))
      [(job.configuration.topDirectory / name, (text job.reference).toUTF8)] := by
  refine .ofExcept_bind (fun _ he => he) fun overlay hoverlay => ?_
  have hreference : job.reference = overlay := by
    unfold reference
    rw [hoverlay]
    rfl
  rw [hreference]
  exact .emit _ _

/-- Just the files that are asked for are emitted beside the recipes. -/
theorem emits_topLevel (job : Job σ) (packages : List GeneratedPackage) :
    Emits job.LacksReference (job.topLevel packages) (job.topContents packages) := by
  have hoverlay : Emits job.LacksReference (job.emitOverlay packages)
      (job.topContent job.configuration.overlay "overlay.nix" (job.overlayText packages)) := emits_top (.emit _ _)
  have hshell : Emits job.LacksReference (job.emitShell packages)
      (job.topContent job.configuration.shell "shell.nix" (job.shellText packages)) :=
    emits_top (emits_with_reference "shell.nix" fun overlay => PackageSet.shell overlay
      job.configuration.distribution (PackageSet.external packages).toList job.configuration.commandLine)
  have hflake : Emits job.LacksReference job.emitFlake (job.topContent job.configuration.flake "flake.nix"
      (PackageSet.flake job.configuration.overlayReference job.configuration.distribution)) := emits_top (.emit _ _)
  have hdefault : Emits job.LacksReference job.emitDefault (job.topContent job.configuration.writesDefault "default.nix"
      (PackageSet.default job.reference)) := emits_top (emits_with_reference "default.nix" PackageSet.default)
  exact hoverlay.bind (hshell.bind (hflake.bind hdefault))

/-! ### What the packages put into them -/

end Job

/-- The attributes of an overlay and the names that a shell lists account for some packages, each of which has a
file. -/
structure PackageSet.Accounts (fileOf : GeneratedPackage → String) (packages : List GeneratedPackage)
    (attributes : List (String × String)) (listed : List String) : Prop where
  ordered : (attributes.map fun a => Text.bytes a.1).Pairwise (· < ·)
  named : ∀ n, n ∈ attributes.map (·.1) ↔ ∃ p ∈ packages, p.name = n
  /-- The last package of a name counts. -/
  bound : ∀ n file, (n, file) ∈ attributes ↔ ∃ before p after, packages = before ++ p :: after ∧
    p.name = n ∧ fileOf p = file ∧ ∀ q ∈ after, q.name ≠ n
  listedOrdered : (listed.map Text.bytes).Pairwise (· < ·)
  needed : ∀ n, n ∈ listed ↔ (∃ p ∈ packages, n ∈ p.dependencies) ∧ ∀ p ∈ packages, p.name ≠ n

namespace PackageSet

theorem accounts (fileOf : GeneratedPackage → String) (packages : List GeneratedPackage) :
    Accounts fileOf packages (overlayEntries (packages.map fun p => (p.name, fileOf p)))
      (external packages).toList := by
  have hnames := overlayEntries_names (packages.map fun p => (p.name, fileOf p))
  have hbytes : ∀ s : NameSet, (s.toList.map Text.bytes).Pairwise (· < ·) :=
    fun s => List.pairwise_map.2 (s.increasing.imp Text.bytes_lt_bytes.2)
  refine ⟨?_, fun n => ?_, fun n file => ?_, hbytes _, fun n => mem_external⟩
  · have hordered := hbytes (NameSet.ofList ((packages.map fun p => (p.name, fileOf p)).map (·.1)))
    rw [← hnames, List.map_map] at hordered
    exact hordered
  · rw [hnames, ← NameSet.mem_def, NameSet.mem_ofList]
    simp
  · rw [mem_overlayEntries]
    constructor
    · rintro ⟨before, after, hsplit, hlast⟩
      obtain ⟨front, rest, rfl, rfl, hrest⟩ := List.map_eq_append_iff.1 hsplit
      obtain ⟨p, back, rfl, hp, rfl⟩ := List.map_eq_cons_iff.1 hrest
      obtain ⟨hname, hfile⟩ := Prod.mk.inj hp
      exact ⟨front, p, back, rfl, hname, hfile, fun q hq => hlast _ (List.mem_map_of_mem hq)⟩
    · rintro ⟨before, p, after, rfl, rfl, rfl, hlast⟩
      refine ⟨_, _, by rw [List.map_append, List.map_cons], fun e he => ?_⟩
      obtain ⟨q, hq, rfl⟩ := List.mem_map.1 he
      exact hlast q hq

section

variable {fileOf : GeneratedPackage → String} {packages : List GeneratedPackage} {attributes : List (String × String)}
  {listed : List String} {p : GeneratedPackage}

/-- A package has its file in the overlay, if all packages of its name have that file. -/
theorem Accounts.mem_of_sole (h : Accounts fileOf packages attributes listed) (hp : p ∈ packages)
    (hsole : ∀ q ∈ packages, q.name = p.name → fileOf q = fileOf p) : (p.name, fileOf p) ∈ attributes := by
  obtain ⟨⟨n, file⟩, hmem, rfl⟩ := List.mem_map.1 ((h.named p.name).2 ⟨p, hp, rfl⟩)
  obtain ⟨before, q, after, hsplit, hname, rfl, -⟩ := (h.bound _ _).1 hmem
  have hq : q ∈ packages := by simp [hsplit]
  rw [← hsole q hq hname]
  exact hmem

/-- A dependency is an attribute of the overlay or a line of the shell. -/
theorem Accounts.attribute_iff (h : Accounts fileOf packages attributes listed) (hp : p ∈ packages) {n : String}
    (hn : n ∈ p.dependencies) : n ∈ attributes.map (·.1) ↔ n ∉ listed := by
  rw [h.named, h.needed, not_and]
  constructor
  · rintro ⟨q, hq, hname⟩ - hnone
    exact hnone q hq hname
  · intro hlisted
    by_contra hnone
    exact hlisted ⟨p, hp, hn⟩ fun q hq hname => hnone ⟨q, hq, hname⟩

end

end PackageSet

namespace Job

variable {job : Job σ} {packages others : List GeneratedPackage}

theorem shellText_perm (h : packages.Perm others) : job.shellText packages = job.shellText others := by
  unfold shellText
  rw [PackageSet.external_perm h]

theorem overlayText_perm (h : packages.Perm others) (hdistinct : (packages.map (·.name)).Nodup) :
    job.overlayText packages = job.overlayText others := by
  unfold overlayText
  rw [PackageSet.overlayEntries_perm (h.map _)]
  rw [List.map_map]
  exact hdistinct

/-- The overlay of some packages, as its text. -/
theorem overlayText_eq (job : Job σ) (packages : List GeneratedPackage) :
    job.overlayText packages = "final: prev:\n\x7b\n" ++
      String.join ((PackageSet.overlayEntries (packages.map fun p => (p.name, job.entryOf p))).map
        PackageSet.attributeLine) ++ "\x7d\n" :=
  PackageSet.overlay_eq _

/-- The overlay and the shell that are emitted beside the recipes account for every package and every dependency once.
The text of the overlay has a line for each name of a package, in the order of bytes, with the file of the last package
of that name, and nothing else between its braces; the list in the text of the shell has a line for each dependency that
is no package, in the order of bytes.  The order of the packages does not matter for the shell, nor, if no name comes
twice, for the overlay. -/
theorem topLevel_accounts (h : ∀ p ∈ packages, ∀ n ∈ p.dependencies, PackageSet.FillsLine n.toList) :
    Emits job.LacksReference (job.topLevel packages) (job.topContents packages) ∧
    (∃ attributes listed,
      PackageSet.Accounts job.entryOf packages attributes listed ∧
      job.overlayText packages =
        "final: prev:\n\x7b\n" ++ String.join (attributes.map PackageSet.attributeLine) ++ "\x7d\n" ∧
      job.shellText packages =
        PackageSet.aboveListed job.reference job.configuration.distribution job.configuration.commandLine ++
          PackageSet.listedLines listed ++ PackageSet.belowListed ∧
      ∀ p ∈ packages, ∀ n ∈ p.dependencies, (n ∈ attributes.map (·.1) ↔ n ∉ listed)) ∧
    ∀ others, packages.Perm others → job.shellText packages = job.shellText others ∧
      ((packages.map (·.name)).Nodup → job.overlayText packages = job.overlayText others) := by
  have haccounts := PackageSet.accounts job.entryOf packages
  have hlines : ∀ n ∈ (PackageSet.external packages).toList, PackageSet.FillsLine n.toList := by
    intro n hn
    obtain ⟨⟨p, hp, hdependency⟩, -⟩ := PackageSet.mem_external.1 (NameSet.mem_def.2 hn)
    exact h p hp n hdependency
  refine ⟨emits_topLevel job packages,
    ⟨_, _, haccounts, overlayText_eq job packages, PackageSet.shell_eq hlines, ?_⟩, ?_⟩
  · exact fun p hp n hn => haccounts.attribute_iff hp hn
  · exact fun others hperm => ⟨shellText_perm hperm, overlayText_perm hperm⟩

/-- Three packages, two of which have one name.  One depends on another, so only the rest is listed in the shell. -/
theorem topLevel_accounts_of_three :
    let job : Job Unit := { configuration := {}, database := .nothing, runner := .empty, year := "2026" }
    let fork : GeneratedPackage := ⟨"nav", ⟨"fork/package.nix"⟩, .ofList ["boost"]⟩
    let packages : List GeneratedPackage := [⟨"nav", ⟨"nav/package.nix"⟩, .ofList ["rclcpp", "geo"]⟩,
      ⟨"geo", ⟨"geo/package.nix"⟩, .ofList ["eigen"]⟩, fork]
    (∀ p ∈ packages, ∀ n ∈ p.dependencies, PackageSet.FillsLine n.toList) ∧
      (∃ (attributes : List (String × String)) (listed : List String), job.overlayText packages =
          "final: prev:\n\x7b\n" ++ String.join (attributes.map PackageSet.attributeLine) ++ "\x7d\n" ∧
        ("nav", "fork/package.nix") ∈ attributes ∧ "boost" ∈ listed ∧ "geo" ∉ listed) ∧
      job.overlayText packages = "final: prev:\n\x7b\n  geo = final.callPackage ./geo/package.nix \x7b\x7d;\n" ++
        "  nav = final.callPackage ./fork/package.nix \x7b\x7d;\n\x7d\n" ∧
      job.shellText packages = job.shellText packages.reverse := by
  intro job fork packages
  have hnames : ∀ p ∈ packages, ∀ n ∈ p.dependencies, PackageSet.FillsLine n.toList := by
    have hlists : ∀ p ∈ packages, ∀ n ∈ p.dependencies.toList, PackageSet.FillsLine n.toList := by decide +kernel
    exact hlists
  have hfork : fork ∈ packages := by simp [packages]
  have hboost : "boost" ∈ fork.dependencies := NameSet.mem_ofList.2 List.mem_cons_self
  obtain ⟨-, ⟨attributes, listed, haccounts, hoverlay, -, -⟩, hperm⟩ := @topLevel_accounts Unit job packages hnames
  refine ⟨hnames, ⟨attributes, listed, hoverlay, ?_, ?_, ?_⟩, by decide +kernel,
    (hperm packages.reverse (List.reverse_perm packages).symm).1⟩
  · have hentry : job.entryOf fork = "fork/package.nix" := by decide +kernel
    exact (haccounts.bound _ _).2 ⟨packages.take 2, fork, [], rfl, rfl, hentry, by simp⟩
  · exact (haccounts.needed _).2 ⟨⟨fork, hfork, hboost⟩, by simp [packages, fork]⟩
  · intro hgeo
    have hnone := ((haccounts.needed _).1 hgeo).2
    simp [packages] at hnone

end Job

end RosRecipes
