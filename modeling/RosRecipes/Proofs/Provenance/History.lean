import RosRecipes.Proofs.Provenance.Caches
import RosRecipes.Proofs.Provenance.Extraction

/-!
# A revision and its patches make up the head

In a linear history, the revision of a source and the patches on top of it are all that ever changed the package
(`resolve_reproduces_head`): the revision is the newest one that the remote has, or a revision before it since which the
package has not changed, and the patches are the commits that only the repository has, as far as they change the
package.

* `History` is the history, `History.AnsweredBy` says what git answers about it,
* `Reproduces` is what a provenance has to be.
-/

namespace RosRecipes

open Action (Gives Succeeds)
open Text (IsLine unlines)

variable {σ : Type} {runner : Runner σ} {r : Repository}

/-- A linear history of a repository with a package in it; the oldest commits are the first ones. -/
structure History where
  /-- The commits that the remote has. -/
  known : List String
  /-- The commits after these, up to the head. -/
  ahead : List String
  /-- Does the commit change the package? -/
  touches : String → Bool
  /-- The commit as a patch; several may have the same file name. -/
  patch : String → Patch
  known_ne_nil : known ≠ []
  nodup : (known ++ ahead).Nodup
  isLine : ∀ c ∈ known ++ ahead, IsLine c.toList
  isFileName : ∀ c ∈ known ++ ahead, IsFileName (patch c).fileName

namespace History

variable (h : History)

def commits : List String := h.known ++ h.ahead

theorem commits_ne_nil : h.commits ≠ [] := List.append_ne_nil_of_left_ne_nil h.known_ne_nil _

/-- The newest commit that the remote has. -/
def base : String := h.known.getLast h.known_ne_nil

def head : String := h.commits.getLast h.commits_ne_nil

/-- What git answers in the directory of the package.  The tips are the ends of the remote branches as they are
listed. -/
structure AnsweredBy (h : History) (runner : Runner σ) (r : Repository) (tips : List String) : Prop where
  url : ∃ url, IsLine url.toList ∧ runner.Prints (r.question ["config", "remote.origin.url"]) (unlines [url])
  subdirectory : ∃ text, runner.Prints (r.question ["rev-parse", "--show-prefix"]) text
  toplevel : ∃ directory, IsLine directory.toList ∧
    runner.Prints (r.question ["rev-parse", "--show-toplevel"]) (unlines [directory])
  head : runner.Prints (r.question ["rev-parse", "HEAD"]) (unlines [h.head])
  tips_ne_nil : tips ≠ []
  isLine_tips : ∀ tip ∈ tips, IsLine tip.toList
  listed : runner.Prints (r.question ["for-each-ref", "refs/remotes/origin", "--format=%(objectname)"]) (unlines tips)
  /-- Neither the order of the tips nor how often one is named matters. -/
  mergeBase : ∀ ts, (∀ t, t ∈ ts ↔ t ∈ tips) →
    runner.Prints (r.question (["merge-base", h.head] ++ ts)) (unlines [h.base])
  /-- The newest commit up to a given one that changes the package, if there is one. -/
  lastCommit : ∀ before c after, h.commits = before ++ c :: after →
    runner.Prints (r.question ["rev-list", "-1", c, "--", "."])
      (unlines ((before ++ [c]).filter h.touches).getLast?.toList)
  /-- The commits after a given one that change the package, oldest first. -/
  localCommits : ∀ before c after, h.commits = before ++ c :: after →
    runner.Prints (r.question ["rev-list", "--reverse", c ++ "..HEAD", "--", "."]) (unlines (after.filter h.touches))
  patches : ∀ c ∈ h.commits, runner.WritesPatch r c (h.patch c)

end History

/-- Every fetch of a revision succeeds, and reports that revision. -/
def Runner.Fetches (runner : Runner σ) (revision : String) : Prop :=
  ∀ location directory s t, ∃ output p,
    (runner.run (prefetchCommand location revision directory) s t).1 = .ok output ∧
      Prefetched.parse? output.stdout = some p ∧ p.revision = revision

/-! ### Commits -/

namespace History

variable {h : History}

/-- The remote has the revision, and since then it has not changed the package. -/
def IsCurrent (h : History) (revision : String) : Prop :=
  ∃ before after, h.known = before ++ revision :: after ∧ ∀ c ∈ after, h.touches c = false

theorem known_eq (h : History) : h.known = h.known.dropLast ++ [h.base] :=
  (List.dropLast_concat_getLast h.known_ne_nil).symm

theorem isCurrent_base (h : History) : h.IsCurrent h.base := ⟨_, [], h.known_eq, nofun⟩

/-- The newest commit that changes the package is current. -/
theorem isCurrent_of_getLast? {revision : String} (hlast : (h.known.filter h.touches).getLast? = some revision) :
    h.IsCurrent revision ∧ h.touches revision = true := by
  rw [← List.head?_reverse, ← List.filter_reverse, List.head?_filter, List.find?_eq_some_iff_append] at hlast
  obtain ⟨htouches, after, before, hreverse, hafter⟩ := hlast
  refine ⟨⟨before.reverse, after.reverse, ?_, fun c hc => ?_⟩, htouches⟩
  · rw [← List.reverse_reverse h.known, hreverse]
    simp
  · simpa using hafter c (List.mem_reverse.1 hc)

theorem IsCurrent.mem {revision : String} (hcurrent : h.IsCurrent revision) : revision ∈ h.known := by
  obtain ⟨before, after, hknown, -⟩ := hcurrent
  rw [hknown]
  exact List.mem_append_right _ List.mem_cons_self

theorem isLine_known {c : String} (hc : c ∈ h.known) : IsLine c.toList := h.isLine c (List.mem_append_left _ hc)

theorem isLine_base (h : History) : IsLine h.base.toList := isLine_known (List.getLast_mem h.known_ne_nil)

/-- The head is the newest commit that the remote has exactly if there are no others. -/
theorem head_ne_base_iff (h : History) : h.head ≠ h.base ↔ h.ahead ≠ [] := by
  by_cases hahead : h.ahead = []
  · have hhead : h.head = h.base := by
      unfold head base commits
      simp only [hahead, List.append_nil]
    exact iff_of_false (fun hne => hne hhead) (fun hne => hne hahead)
  · refine iff_of_true (fun heq => ?_) hahead
    have hhead : h.head = h.ahead.getLast hahead := List.getLast_append_of_ne_nil _ hahead
    have hbase : h.base ∈ h.known := List.getLast_mem h.known_ne_nil
    exact (List.nodup_append.1 h.nodup).2.2 _ hbase _ (List.getLast_mem hahead) (heq.symm.trans hhead)

end History

/-! ### Answers -/

namespace History.AnsweredBy

variable {h : History} {tips : List String} (hgit : h.AnsweredBy runner r tips)

include hgit

theorem gives_lastCommit (htouched : ∃ c ∈ h.known, h.touches c = true) :
    ∃ revision, h.IsCurrent revision ∧ h.touches revision = true ∧
      Gives (fun _ => True) (r.lastCommit runner h.base) (.ok revision) := by
  obtain ⟨c, hc, htouches⟩ := htouched
  have hne : h.known.filter h.touches ≠ [] := List.ne_nil_of_mem (List.mem_filter.2 ⟨hc, htouches⟩)
  have hlast := List.getLast?_eq_some_getLast hne
  have hcommits : h.commits = h.known.dropLast ++ h.base :: h.ahead := by
    rw [commits, ← List.singleton_append, ← List.append_assoc, ← h.known_eq]
  have hprints := hgit.lastCommit _ _ _ hcommits
  rw [← h.known_eq, hlast] at hprints
  obtain ⟨hcurrent, htouches⟩ := isCurrent_of_getLast? hlast
  exact ⟨_, hcurrent, htouches, Repository.gives_lastCommit (isLine_known hcurrent.mem) hprints⟩

/-- What only the repository has and what changes the package becomes patches, whichever current revision they are
on top of. -/
theorem gives_extractPatches {revision : String} (hcurrent : h.IsCurrent revision) :
    Gives (fun _ => True) (extractPatches runner r revision) (.ok ((h.ahead.filter h.touches).map h.patch)) := by
  obtain ⟨before, after, hknown, hafter⟩ := hcurrent
  have hcommits : h.commits = before ++ revision :: (after ++ h.ahead) := by
    rw [commits, hknown, List.append_assoc, List.cons_append]
  have hprints := hgit.localCommits _ _ _ hcommits
  have hnone : after.filter h.touches = [] := by simpa using hafter
  rw [List.filter_append, hnone, List.nil_append] at hprints
  have hmem : ∀ c ∈ h.ahead.filter h.touches, c ∈ h.commits :=
    fun c hc => List.mem_append_right _ (List.mem_filter.1 hc).1
  exact gives_patches (fun c hc => h.isLine c (hmem c hc)) hprints (fun c hc => h.isFileName c (hmem c hc))
    fun c hc => hgit.patches c (hmem c hc)

end History.AnsweredBy

namespace Provenance

variable {h : History} {tips : List String} {directory : Path}

/-- What is found out about the package. -/
private theorem succeeds_inspect (hgit : h.AnsweredBy runner r tips) (htouched : ∃ c ∈ h.known, h.touches c = true)
    (perPackage : Bool) :
    Succeeds (fun _ => True) (inspect runner r perPackage) fun c =>
      c.head = h.head ∧ c.mergeBase = h.base ∧ h.IsCurrent c.revision ∧
        (perPackage = false → c.revision = h.base) ∧ (perPackage = true → h.touches c.revision = true) := by
  obtain ⟨url, hurl, hprintsUrl⟩ := hgit.url
  obtain ⟨subdirectory, hprintsSubdirectory⟩ := hgit.subdirectory
  obtain ⟨toplevel, htoplevel, hprintsToplevel⟩ := hgit.toplevel
  have hhead : IsLine h.head.toList := h.isLine _ (List.getLast_mem h.commits_ne_nil)
  refine (Repository.gives_askLine hurl hprintsUrl).succeeds.bind fun _ _ => ?_
  refine (Repository.gives_ask hprintsSubdirectory).succeeds.bind fun _ _ => ?_
  have hdirectory : Gives (fun _ => True) (r.toplevel runner) (.ok ⟨toplevel⟩) :=
    (Repository.gives_askLine htoplevel hprintsToplevel).bind_ok (.pure _)
  refine hdirectory.succeeds.bind fun _ _ => ?_
  refine (Repository.gives_askLine hhead hgit.head).succeeds.bind ?_
  rintro _ rfl
  refine (Repository.gives_mergeBase hgit.tips_ne_nil hgit.isLine_tips h.isLine_base hgit.listed
    hgit.mergeBase).succeeds.bind ?_
  rintro _ rfl
  cases perPackage with
  | false =>
    refine (Gives.pure h.base).succeeds.bind ?_
    rintro _ rfl
    exact .pure ⟨rfl, rfl, h.isCurrent_base, fun _ => rfl, nofun⟩
  | true =>
    obtain ⟨revision, hcurrent, htouches, hlast⟩ := hgit.gives_lastCommit htouched
    refine hlast.succeeds.bind ?_
    rintro _ rfl
    exact .pure ⟨rfl, rfl, hcurrent, nofun, fun _ => htouches⟩

section

variable {revision : String} (hfetch : runner.Fetches revision)

include hfetch

private theorem succeeds_prefetch (location : Path) (directory : Option String) :
    Succeeds (fun _ => True) (prefetch runner location revision directory) (·.revision = revision) := by
  refine (Succeeds.modify fun _ _ => trivial).bind fun _ _ => ?_
  have hcall : Succeeds (fun _ => True) (Action.call runner (prefetchCommand location revision directory))
      fun output => ∃ p, Prefetched.parse? output.stdout = some p ∧ p.revision = revision := by
    intro w _
    obtain ⟨output, p, houtput, hp⟩ := hfetch location directory w.tools w.files
    refine ⟨output, ?_, ⟨p, hp⟩, trivial⟩
    rw [Action.perform_call]
    exact houtput
  refine hcall.bind ?_
  rintro output ⟨p, hparse, hrevision⟩
  rw [hparse]
  dsimp only
  rw [if_neg (not_not_intro hrevision)]
  exact .pure hrevision

private theorem succeeds_hashStored (key : String) (toplevel : Path) (directory : Option String) :
    Succeeds (fun _ => True) (hashStored runner key toplevel revision directory) (·.revision = revision) := by
  refine .get fun w => ?_
  cases hfound : w.storedCache.bind (·.get? key revision) with
  | some result =>
    obtain ⟨cache, -, hget⟩ := Option.bind_eq_some_iff.1 hfound
    exact .pure (of_decide_eq_true (Option.filter_eq_some_iff.1 hget).2)
  | none =>
    refine (succeeds_prefetch hfetch toplevel directory).bind fun result hresult => ?_
    exact (Succeeds.modify fun _ _ => trivial).bind fun _ _ => .pure hresult

private theorem succeeds_hashRepository (url : String) (toplevel : Path) :
    Succeeds (fun _ => True) (hashRepository runner url toplevel revision) (·.revision = revision) := by
  refine .get fun w => ?_
  cases hfound : w.runCache.get? toplevel revision with
  | some result => exact .pure (of_decide_eq_true (Option.filter_eq_some_iff.1 hfound).2)
  | none =>
    refine (succeeds_hashStored hfetch _ toplevel none).bind fun result hresult => ?_
    exact (Succeeds.modify fun _ _ => trivial).bind fun _ _ => .pure hresult

end

/-- However the hash is found, it is for the revision. -/
private theorem succeeds_hash {c : Checkout} (hfetch : runner.Fetches c.revision) (perPackage : Bool) :
    Succeeds (fun _ => True) (hash runner c perPackage) (·.revision = c.revision) := by
  cases perPackage with
  | true => exact succeeds_hashStored hfetch _ _ _
  | false => exact succeeds_hashRepository hfetch _ _

/-- The provenance makes up the head of the history. -/
structure Reproduces (h : History) (options : Options) (p : Provenance) : Prop where
  mergeBase : p.mergeBase = h.base
  current : h.IsCurrent p.source.revision
  ofRepository : options.perPackage = false → p.source.revision = h.base
  ofPackage : options.perPackage = true → h.touches p.source.revision = true
  patches : p.patches = if options.patches then (h.ahead.filter h.touches).map h.patch else []
  dropsCommits : p.dropsCommits = true ↔ options.patches = false ∧ h.ahead ≠ []

/-- If git answers by a linear history and a fetch reports the revision that it was asked for, then in every world a
provenance is found, and it makes up the head. -/
theorem resolve_reproduces_head (hgit : h.AnsweredBy runner ⟨directory⟩ tips) (hfetch : ∀ c ∈ h.known, runner.Fetches c)
    (htouched : ∃ c ∈ h.known, h.touches c = true) (options : Options) (w : World σ) :
    ∃ p, ((resolve runner directory options).perform w).1 = .ok p ∧ Reproduces h options p := by
  have hresolve : Succeeds (fun _ => True) (resolve runner directory options) (Reproduces h options) := by
    refine (succeeds_inspect hgit htouched options.perPackage).bind ?_
    rintro c ⟨hhead, hbase, hcurrent, hrepository, hpackage⟩
    refine (succeeds_hash (hfetch _ hcurrent.mem) options.perPackage).bind ?_
    rintro hashed hrevision
    have hpatches : Gives (fun _ => True) (localPatches runner ⟨directory⟩ c.revision options.patches)
        (.ok (if options.patches then (h.ahead.filter h.touches).map h.patch else [])) := by
      cases options.patches with
      | false => exact .pure []
      | true => exact hgit.gives_extractPatches hcurrent
    have hwarn : ∀ drops, Succeeds (fun _ => True) (warnOfDropped c drops : Action σ Unit) fun _ => True := by
      intro drops
      cases drops with
      | false => exact .pure trivial
      | true => exact .modify fun _ _ => trivial
    refine hpatches.succeeds.bind ?_
    rintro _ rfl
    refine (hwarn _).bind fun _ _ => .pure ?_
    have hrevision' : (c.source hashed options.perPackage).revision = c.revision := hrevision
    refine ⟨hbase, hrevision' ▸ hcurrent, ?_, ?_, rfl, ?_⟩
    · exact fun hwhole => hrevision'.trans (hrepository hwhole)
    · exact fun hpart => hrevision' ▸ hpackage hpart
    · rw [← h.head_ne_base_iff, ← hhead, ← hbase]
      simp [Checkout.isAhead]
  obtain ⟨p, hp, hreproduces, -⟩ := hresolve w trivial
  exact ⟨p, hp, hreproduces⟩

/-! ### Four commits -/

/-- Two commits that the remote has and two that it does not have.  All but the second change the package, and the
patches of the last two have the same name. -/
def fourCommits : History where
  known := ["a", "b"]
  ahead := ["c", "d"]
  touches c := c ≠ "b"
  patch c := ⟨"0001-Fix.patch", c.toUTF8⟩
  known_ne_nil := by decide
  nodup := by decide
  isLine := by decide +kernel
  isFileName := by decide +kernel

/-- Git and a fetch in that history. -/
def fourCommitsRunner : Runner Unit where
  run c s t :=
    let newest := c.arguments.getLast?.getD ""
    let prints (lines : List String) : Except Error Output × Unit × FileTree := (.ok { stdout := unlines lines }, s, t)
    match c.arguments with
    | ["config", "remote.origin.url"] => prints ["https://example.org/ws.git"]
    | ["rev-parse", "--show-prefix"] => prints ["pkg/"]
    | ["rev-parse", "--show-toplevel"] => prints ["/ws"]
    | ["rev-parse", "HEAD"] => prints ["d"]
    | "for-each-ref" :: _ => prints ["b", "a", "b"]
    | "merge-base" :: _ => prints ["b"]
    | ["rev-list", "-1", revision, "--", "."] => prints [if revision = "b" then "a" else revision]
    | ["rev-list", "--reverse", range, "--", "."] =>
      prints (["c", "d"].filter fun c => range ≠ c ++ "..HEAD" ∧ range ≠ "d..HEAD")
    | "format-patch" :: _ =>
      (.ok { stdout := unlines [(temporaryPath / "0001-Fix.patch").text] }, s,
        t.set (temporaryDirectory ++ ["0001-Fix.patch"]) (.file newest.toUTF8 false))
    | _ => prints [Prefetched.write ⟨newest, "hash"⟩]

private theorem fourCommits_split {before after : List String} {c : String}
    (h : fourCommits.commits = before ++ c :: after) :
    (before, c, after) ∈ [([], "a", ["b", "c", "d"]), (["a"], "b", ["c", "d"]), (["a", "b"], "c", ["d"]),
      (["a", "b", "c"], "d", [])] := by
  have h : ["a", "b", "c", "d"] = before ++ c :: after := h
  rcases before with _ | ⟨_, _ | ⟨_, _ | ⟨_, _ | ⟨_, before⟩⟩⟩⟩ <;> simp_all

private theorem fourCommits_answered : fourCommits.AnsweredBy fourCommitsRunner ⟨⟨"/ws/pkg"⟩⟩ ["b", "a", "b"] where
  url := ⟨"https://example.org/ws.git", by decide +kernel, fun s t => ⟨_, rfl, rfl⟩⟩
  subdirectory := ⟨unlines ["pkg/"], fun s t => ⟨_, rfl, rfl⟩⟩
  toplevel := ⟨"/ws", by decide +kernel, fun s t => ⟨_, rfl, rfl⟩⟩
  head s t := ⟨_, rfl, rfl⟩
  tips_ne_nil := by decide
  isLine_tips := by decide +kernel
  listed s t := ⟨_, rfl, rfl⟩
  mergeBase _ _ s t := ⟨_, rfl, rfl⟩
  lastCommit before c after h := by
    have hsplit := fourCommits_split h
    simp only [List.mem_cons, List.not_mem_nil, or_false, Prod.mk.injEq] at hsplit
    obtain ⟨rfl, rfl, rfl⟩ | ⟨rfl, rfl, rfl⟩ | ⟨rfl, rfl, rfl⟩ | ⟨rfl, rfl, rfl⟩ := hsplit
    all_goals exact fun s t => ⟨_, rfl, by decide +kernel⟩
  localCommits before c after h := by
    have hsplit := fourCommits_split h
    simp only [List.mem_cons, List.not_mem_nil, or_false, Prod.mk.injEq] at hsplit
    obtain ⟨rfl, rfl, rfl⟩ | ⟨rfl, rfl, rfl⟩ | ⟨rfl, rfl, rfl⟩ | ⟨rfl, rfl, rfl⟩ := hsplit
    all_goals exact fun s t => ⟨_, rfl, by decide +kernel⟩
  patches c hc := by
    refine ⟨fun s t => ⟨_, rfl, rfl⟩, fun s t ht => ?_⟩
    have hne : temporaryDirectory ++ ["0001-Fix.patch"] ≠ [] := by decide
    refine ⟨?_, ⟨false, ?_⟩, fun name hname => ?_⟩
    · exact (FileTree.find?_set t hne _ _).trans ((if_neg (by decide)).trans ht.directory)
    · exact (FileTree.find?_set t hne _ _).trans (if_pos rfl)
    · have hname : name ≠ "0001-Fix.patch" := hname
      exact (FileTree.find?_set t hne _ _).trans ((if_neg (by simpa using hname)).trans (ht.empty name))

private theorem fourCommits_fetches (c : String) (hc : c ∈ fourCommits.known) : fourCommitsRunner.Fetches c := by
  have hparse : ∀ c ∈ fourCommits.known,
      Prefetched.parse? (unlines [Prefetched.write ⟨c, "hash"⟩]) = some ⟨c, "hash"⟩ := by
    decide +kernel
  intro location directory s t
  refine ⟨{ stdout := unlines [Prefetched.write ⟨c, "hash"⟩] }, ⟨c, "hash"⟩, ?_, hparse c hc, rfl⟩
  cases directory with
  | none => rfl
  | some directory => rfl

theorem resolve_fourCommits :
    let w : World Unit := { tools := (), files := ⟨∅, []⟩ }
    ∃ p, ((resolve fourCommitsRunner ⟨"/ws/pkg"⟩ { perPackage := true, patches := true }).perform w).1 = .ok p ∧
      p.source.revision = "a" ∧ p.mergeBase = "b" ∧
      p.patches = [⟨"0001-Fix.patch", "c".toUTF8⟩, ⟨"0001-Fix.patch", "d".toUTF8⟩] := by
  intro w
  obtain ⟨p, hp, h⟩ := resolve_reproduces_head fourCommits_answered fourCommits_fetches
    ⟨"a", by decide +kernel⟩ { perPackage := true, patches := true } w
  have hmem : p.source.revision ∈ ["a", "b"] := h.current.mem
  have hne : p.source.revision ≠ "b" := of_decide_eq_true (h.ofPackage rfl)
  refine ⟨p, hp, ?_, h.mergeBase, h.patches⟩
  simpa [hne] using hmem

end Provenance

end RosRecipes
