import RosRecipes.Shell.Tool

/-!
# Finding programs

A program is a script in the file tree or an installed tool.  Its name is a path, or it is looked for in some
directories, the first of which that has it decides.

* `locate` finds the program of a name.
-/

namespace RosRecipes.Shell

/-- A program that can be started. -/
inductive Program where
  | script (path : Path) (content : ByteArray)
  | tool (path : Path) (name : String)

def Program.path : Program → Path
  | script path _ => path
  | tool path _ => path

/-- The directories of the installed tools. -/
def toolDirectories : List Path := [⟨"/usr/bin"⟩, ⟨"/bin"⟩]

/-- The program at a path. -/
def programAt (files : FileTree) (path : Path) : Except FileFault Program :=
  match files.lookup path with
  | .ok (.file content true) => .ok (.script path content)
  | .ok _ => .error .permissionDenied
  | .error fault =>
    match path.parent?, path.fileName? with
    | some above, some name =>
      if above ∈ toolDirectories ∧ name ∈ Tool.installed then .ok (.tool path name) else .error fault
    | _, _ => .error fault

/-- The program of a name: a path, or the first one in the given directories. -/
def locate (search : List Path) (files : FileTree) (name : String) : Except FileFault Program :=
  if name.isEmpty then .error .notFound
  else if name.toList.contains '/' then programAt files ⟨name⟩
  else
    let found := search.map fun directory => programAt files (directory / name)
    match found.findSome? Except.toOption with
    | some program => .ok program
    | none =>
      let denied := found.any fun r => match r with | .error .permissionDenied => true | _ => false
      .error (if denied then .permissionDenied else .notFound)

end RosRecipes.Shell
