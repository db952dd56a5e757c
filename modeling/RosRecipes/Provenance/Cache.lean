import RosRecipes.NameSet
import RosRecipes.Path
import RosRecipes.Provenance.Prefetched
import RosRecipes.Table

/-!
# Caches of prefetched revisions

Hashing a revision is slow, so results are kept twice: for the run under the top directory of the repository,
and between runs in a file, under the address of the repository, together with the directory when only that is
fetched.  An entry is used only for the revision that it holds.

* `RunCache` and `StoredCache` are the two caches,
* `StoredCache.write` and `StoredCache.read?` are the form of the file.
-/

namespace RosRecipes

/-- The results of one run, under the components of the top directory. -/
structure RunCache where
  entries : Table (List Path.Component) Prefetched := ∅
deriving Inhabited

namespace RunCache

/-- The result for a directory, if it is for the given revision. -/
def get? (c : RunCache) (toplevel : Path) (revision : String) : Option Prefetched :=
  (c.entries.get? toplevel.components).filter (·.revision = revision)

def insert (c : RunCache) (toplevel : Path) (p : Prefetched) : RunCache :=
  ⟨c.entries.insert toplevel.components p⟩

def size (c : RunCache) : Nat := c.entries.size

end RunCache

/-- The results that are kept between runs. -/
structure StoredCache where
  /-- The file that the results are kept in. -/
  path : Path
  entries : Table String Prefetched := ∅
  /-- There are entries that the file does not have. -/
  dirty : Bool := false
deriving Inhabited

namespace StoredCache

/-- The file of the cache, below the directory of caches. -/
def file (caches : Path) : Path := caches / "ros2nix" / "git-cache.json"

/-- The directory of caches: an absolute one that is given, else the one in the home directory. -/
def cacheDirectory? (given home : Option String) : Option Path :=
  match given.map Path.mk with
  | some directory => if directory.isAbsolute then some directory else ofHome
  | none => ofHome
where
  /-- The directory of caches in the home directory. -/
  ofHome : Option Path := (home.filter (!·.isEmpty)).map fun home => Path.mk home / ".cache"

/-- The key of a repository, or of a directory in it. -/
def key (url : String) (directory : Option String) : String :=
  match directory with
  | some directory => url ++ "?dir=" ++ directory
  | none => url

/-- The result under a key, if it is for the given revision. -/
def get? (c : StoredCache) (key revision : String) : Option Prefetched :=
  (c.entries.get? key).filter (·.revision = revision)

def insert (c : StoredCache) (key : String) (p : Prefetched) : StoredCache :=
  { c with entries := c.entries.insert key p, dirty := true }

/-- The text of the file: one object, with the keys in order. -/
def write (entries : Table String Prefetched) : String :=
  let keys := NameSet.ofList (entries.entries.map (·.1))
  Json.writeObject (keys.toList.filterMap fun key => (entries.get? key).map fun p => (key, p.write))

/-- The entries that a file holds; of a repeated key the last entry counts. -/
def read? (content : String) : Option (Table String Prefetched) := do
  match ← Json.read? content with
  | .object fields =>
    fields.foldlM (fun entries (key, value) => do
      return entries.insert (← key) (← Prefetched.ofJson? value)) ∅
  | _ => none

end StoredCache

end RosRecipes
