import RosRecipes.Text.Search

/-!
# Flake references

A flake reference names a package set.  A path stands for itself, and a repository of the form
`github:owner/repository/reference` for an archive; nothing else has a Nix expression.
-/

namespace RosRecipes.FlakeReference

/-- The parts of a reference `kind:owner/repository/reference`. -/
structure Parts where
  kind : List Char
  owner : List Char
  repository : List Char
  reference : Option (List Char)
deriving DecidableEq, Repr

/-- What stands before the first occurrence of a character, and what follows it. -/
def cut? (c : Char) (s : List Char) : Option (List Char × List Char) :=
  match s.dropWhile (· ≠ c) with
  | [] => none
  | _ :: after => some (s.takeWhile (· ≠ c), after)

/-- The parts of a text on one line: each separator that ends a part is the first one possible. -/
def parts? (s : List Char) : Option Parts :=
  if '\n' ∈ s then none
  else do
    let (kind, rest) ← cut? ':' s
    let (owner, rest) ← cut? '/' rest
    match cut? '/' rest with
    | some (repository, reference) => return ⟨kind, owner, repository, some reference⟩
    | none => return ⟨kind, owner, rest, none⟩

/-- The address of the archive of a reference. -/
def archive (p : Parts) : String :=
  "https://github.com/" ++ .ofList p.owner ++ "/" ++ .ofList p.repository ++ "/archive/" ++
    .ofList (p.reference.getD "HEAD".toList) ++ ".tar.gz"

/-- The Nix expression for a reference, if there is one. -/
def expression? (reference : String) : Option String :=
  match reference.toList with
  | '.' :: _ | '/' :: _ => some reference
  | s => do
    let parts ← parts? s
    if parts.kind = "github".toList then some ("builtins.fetchTarball \"" ++ archive parts ++ "\"") else none

end RosRecipes.FlakeReference
