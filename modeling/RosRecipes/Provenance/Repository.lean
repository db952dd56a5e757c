import RosRecipes.World

/-!
# Questions to a repository

Everything about a repository is asked of git, which is run in the directory of the package; so questions
about the path `.` are about the package.

* `remoteTips` are the ends of the branches that follow the remote, and `mergeBase` is the newest ancestor of
  a commit that one of them contains.
-/

namespace RosRecipes

/-- The directory of a package in a repository. -/
structure Repository where
  directory : Path
deriving DecidableEq, Repr

namespace Repository

variable {σ : Type}

/-- The command for a question. -/
def question (r : Repository) (arguments : List String) : Command where
  program := "git"
  arguments
  directory := some r.directory

/-- Asks git; blanks around the answer do not count. -/
def ask (runner : Runner σ) (r : Repository) (arguments : List String) : Action σ String := do
  return Text.trimmed (← Action.call runner (r.question arguments)).stdout

/-- Asks a question whose answer is one line. -/
def askLine (runner : Runner σ) (r : Repository) (arguments : List String) : Action σ String := do
  let answer ← r.ask runner arguments
  if answer.isEmpty || answer.toList.contains '\n' then
    throw (.invalidOutput ("git " ++ String.intercalate " " arguments) (.notOneLine answer))
  return answer

/-- The lines of an answer that are not blank. -/
def answerLines (answer : String) : List String :=
  (((Text.lines answer.toList).map Text.trim).filter (· ≠ [])).map .ofList

/-- The address of the remote. -/
def remoteUrl (runner : Runner σ) (r : Repository) : Action σ String :=
  r.askLine runner ["config", "remote.origin.url"]

/-- The way from the top directory to the package, with a slash at the end; empty at the top. -/
def subdirectory (runner : Runner σ) (r : Repository) : Action σ String :=
  r.ask runner ["rev-parse", "--show-prefix"]

def toplevel (runner : Runner σ) (r : Repository) : Action σ Path := do
  return ⟨← r.askLine runner ["rev-parse", "--show-toplevel"]⟩

def head (runner : Runner σ) (r : Repository) : Action σ String :=
  r.askLine runner ["rev-parse", "HEAD"]

/-- Keeps the first of equal texts. -/
def dropRepeated (xs : List String) : List String :=
  xs.foldl (fun seen x => if x ∈ seen then seen else seen ++ [x]) []

/-- The ends of the remote branches, each once. -/
def remoteTips (runner : Runner σ) (r : Repository) : Action σ (List String) := do
  return dropRepeated
    (answerLines (← r.ask runner ["for-each-ref", "refs/remotes/origin", "--format=%(objectname)"]))

/-- The newest ancestor of a commit that is known to the remote. -/
def mergeBase (runner : Runner σ) (r : Repository) (commit : String) : Action σ String := do
  let tips ← r.remoteTips runner
  if tips.isEmpty then
    match ← Action.attempt (r.toplevel runner) with
    | .ok toplevel => throw (.noRemoteBranch toplevel)
    | .error _ => throw (.noRemoteBranch r.directory)
  r.askLine runner (["merge-base", commit] ++ tips)

/-- The newest commit up to a revision that changed the package. -/
def lastCommit (runner : Runner σ) (r : Repository) (revision : String) : Action σ String := do
  let commit ← r.ask runner ["rev-list", "-1", revision, "--", "."]
  if commit.isEmpty then
    throw (.invalidOutput ("git rev-list -1 " ++ revision ++ " -- .") (.noCommit r.directory))
  return commit

/-- The commits after a revision that changed the package, oldest first. -/
def localCommits (runner : Runner σ) (r : Repository) (revision : String) : Action σ (List String) := do
  return answerLines (← r.ask runner ["rev-list", "--reverse", revision ++ "..HEAD", "--", "."])

/-- The arguments that write a commit as a patch into a directory.  The patch leaves out all that may change
without the commit. -/
def patchArguments (commit : String) (target : Path) : List String :=
  ["format-patch", "--zero-commit", "--relative", "--no-signature", "-o", target.text, "-1", commit]

/-- The file that an answer reports, if any. -/
def reportedFile? (r : Repository) (answer : String) : Option Path :=
  let file := Text.trim (((Text.lines answer.toList).getLast?).getD [])
  if file.isEmpty then none
  else
    let file : Path := ⟨.ofList file⟩
    some (if file.isAbsolute then file else r.directory.join file)

/-- Writes a commit as a patch into a directory, and gives the file. -/
def formatPatch (runner : Runner σ) (r : Repository) (commit : String) (target : Path) : Action σ Path := do
  let answer ← r.ask runner (patchArguments commit target)
  match r.reportedFile? answer with
  | some file => return file
  | none => throw (.invalidOutput ("git format-patch -1 " ++ commit) .noPatch)

end Repository

end RosRecipes
