import RosRecipes.Provenance.Patches
import RosRecipes.Provenance.Prefetch
import RosRecipes.Source

/-!
# The provenance of a package

The source of a package is the newest revision that the remote knows, or, for sources per package, the last one
before it that changed the package.  Its hash comes from the caches, if they have it.  Local commits become
patches, or are left out with a warning.

* `Provenance.resolve` finds the provenance of the package in a directory.
-/

namespace RosRecipes

namespace Provenance

structure Options where
  /-- Fetch only the directory of the package. -/
  perPackage : Bool := false
  /-- Turn local commits into patches. -/
  patches : Bool := false
deriving DecidableEq, Repr

end Provenance

/-- What git says about the directory of a package. -/
structure Checkout where
  url : String
  /-- The way from the top directory to the package, with a slash at the end; empty at the top. -/
  subdirectory : String
  toplevel : Path
  head : String
  /-- The newest revision of the repository that the remote knows. -/
  mergeBase : String
  /-- The revision of the source. -/
  revision : String
deriving DecidableEq, Repr

namespace Checkout

/-- Are there commits that the remote does not know? -/
def isAhead (c : Checkout) : Bool := c.head ≠ c.mergeBase

def subdirectory? (c : Checkout) : Option String := if c.subdirectory.isEmpty then none else some c.subdirectory

/-- The directory that a fetch is restricted to. -/
def sparseCheckout (c : Checkout) (perPackage : Bool) : Option String :=
  if perPackage then c.subdirectory? else none

/-- The source with a hash. -/
def source (c : Checkout) (hashed : Prefetched) (perPackage : Bool) : GitSource where
  host := .detect c.url
  revision := hashed.revision
  sha256 := hashed.sha256
  subdirectory := c.subdirectory?
  sparseCheckout := c.sparseCheckout perPackage

end Checkout

structure Provenance where
  source : GitSource
  /-- The local commits, oldest first. -/
  patches : List Patch
  /-- The newest revision of the repository that the remote knows. -/
  mergeBase : String
  /-- There are commits that neither the remote nor a patch has. -/
  dropsCommits : Bool
deriving DecidableEq

namespace Provenance

variable {σ : Type}

/-- The result of a prefetch, from the stored cache if it has it. -/
def hashStored (runner : Runner σ) (key : String) (toplevel : Path) (revision : String)
    (directory : Option String) : Action σ Prefetched := do
  match (← get).storedCache.bind (·.get? key revision) with
  | some result => return result
  | none =>
    let result ← prefetch runner toplevel revision directory
    modify fun w => { w with storedCache := w.storedCache.map (·.insert key result) }
    return result

/-- The hash of a whole repository, from the cache of the run if it has it. -/
def hashRepository (runner : Runner σ) (url : String) (toplevel : Path) (revision : String) :
    Action σ Prefetched := do
  match (← get).runCache.get? toplevel revision with
  | some result => return result
  | none =>
    let result ← hashStored runner (StoredCache.key url none) toplevel revision none
    modify fun w => { w with runCache := w.runCache.insert toplevel result }
    return result

/-- What git says about the package in a directory. -/
def inspect (runner : Runner σ) (r : Repository) (perPackage : Bool) : Action σ Checkout := do
  let url ← r.remoteUrl runner
  let subdirectory ← r.subdirectory runner
  let toplevel ← r.toplevel runner
  let head ← r.head runner
  let mergeBase ← r.mergeBase runner head
  let revision ← if perPackage then r.lastCommit runner mergeBase else pure mergeBase
  return { url, subdirectory, toplevel, head, mergeBase, revision }

/-- The hash of the source of a package. -/
def hash (runner : Runner σ) (c : Checkout) (perPackage : Bool) : Action σ Prefetched :=
  if perPackage then
    hashStored runner (StoredCache.key c.url (some c.subdirectory)) c.toplevel c.revision (c.sparseCheckout true)
  else hashRepository runner c.url c.toplevel c.revision

/-- The local commits as patches, if these are wanted. -/
def localPatches (runner : Runner σ) (r : Repository) (revision : String) (wanted : Bool) : Action σ (List Patch) :=
  if wanted then extractPatches runner r revision else return []

/-- Warns of local commits that are left out. -/
def warnOfDropped (c : Checkout) (dropsCommits : Bool) : Action σ Unit :=
  if dropsCommits then
    Action.remark .warn
      (c.toplevel.text ++ " contains commits not available upstream. Consider using --patches")
  else return

/-- The provenance of the package in a directory. -/
def resolve (runner : Runner σ) (directory : Path) (options : Options) : Action σ Provenance := do
  let r : Repository := ⟨directory⟩
  let c ← inspect runner r options.perPackage
  let hashed ← hash runner c options.perPackage
  let patches ← localPatches runner r c.revision options.patches
  let dropsCommits := !options.patches && c.isAhead
  warnOfDropped c dropsCommits
  return { source := c.source hashed options.perPackage, patches, mergeBase := c.mergeBase, dropsCommits }

end Provenance

end RosRecipes
