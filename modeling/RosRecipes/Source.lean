import RosRecipes.Text.Search

/-!
# Sources

Where the code of a package comes from: a parameter of the recipe, a directory next to the recipe, or a
revision of a git repository that is pinned by a hash.

* `Host.detect` tells repositories that can be fetched as an archive from all others.
-/

namespace RosRecipes

/-- Where a git repository is served. -/
inductive Host where
  | generic (url : String)
  | gitHub (owner repository : String)
deriving DecidableEq, Repr

namespace Host

/-- May a repository name end here?  What follows has to be nothing, `.git`, or a path on one line. -/
def isEnding : List Char → Bool
  | [] => true
  | '/' :: path => '\n' ∉ path
  | rest => rest = ['.', 'g', 'i', 't']

/-- The shortest name, on one line, after which a repository name may end. -/
def repository? : List Char → Option (List Char)
  | [] => some []
  | c :: rest =>
    if isEnding (c :: rest) then some []
    else if c = '\n' then none
    else (repository? rest).map (c :: ·)

/-- The owner and the repository that a remote address names. -/
def ownerAndRepository? (url : List Char) : Option (List Char × List Char) := do
  let rest ← Text.dropStart? "https://github.com/".toList url
  match rest.dropWhile (· ≠ '/') with
  | '/' :: name => return (rest.takeWhile (· ≠ '/'), ← repository? name)
  | _ => none

/-- The host of a remote address. -/
def detect (url : String) : Host :=
  match ownerAndRepository? url.toList with
  | some (owner, name) => .gitHub (.ofList owner) (.ofList name)
  | none => .generic url

/-- The function that fetches from the host. -/
def fetcher : Host → String
  | .generic _ => "fetchgit"
  | .gitHub .. => "fetchFromGitHub"

end Host

/-- A revision of a git repository. -/
structure GitSource where
  host : Host
  revision : String
  sha256 : String
  /-- The directory of the package in the repository, with a slash at the end. -/
  subdirectory : Option String := none
  /-- The directory that the fetch is restricted to. -/
  sparseCheckout : Option String := none
deriving DecidableEq, Repr

/-- The root of the package within the fetched repository. -/
def GitSource.sourceRoot (s : GitSource) : Option String := s.subdirectory.map ("$\x7bsrc.name\x7d/" ++ ·)

inductive Source where
  /-- A parameter of the recipe. -/
  | parameter (name : String)
  /-- A path from the recipe. -/
  | directory (path : String)
  | git (source : GitSource)
deriving DecidableEq, Repr

namespace Source

/-- The directory that is `relative` away from the recipe; slashes at the end do not matter. -/
def ofDirectory (relative : String) : Source :=
  let path := (relative.toList.reverse.dropWhile (· = '/')).reverse
  if path = [] ∨ path = ['.'] then .directory "./." else .directory ("./" ++ .ofList path)

/-- The parameter of the recipe that the source needs. -/
def parameter? : Source → Option String
  | .parameter name => some name
  | .directory _ => none
  | .git s => some s.host.fetcher

def sourceRoot : Source → Option String
  | .git s => s.sourceRoot
  | _ => none

end Source

end RosRecipes
