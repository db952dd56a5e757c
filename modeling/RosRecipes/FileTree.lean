import RosRecipes.Path
import RosRecipes.Table
import RosRecipes.Text.Utf8

/-!
# File trees

A file tree maps places, which are lists of names from the root, to files and directories.  There are no
links and no permissions.  A path is walked piece by piece from the root or from the working directory, and
every piece but the last has to be a directory that exists (`walk`).

* `read`, `readText` and `write` work on files, `makeDirectories` on directories.
-/

namespace RosRecipes

/-- Why a file operation was refused. -/
inductive FileFault where
  | notFound
  | exists
  | notADirectory
  | isADirectory
  | brokenPipe
  | nameTooLong
  | permissionDenied
  | notExecutable
  | zeroByte
  | zeroByteInCommand
  | notText
deriving DecidableEq, Repr

/-- The wording of the operating system. -/
def FileFault.message : FileFault → String
  | .notFound => "No such file or directory (os error 2)"
  | .exists => "File exists (os error 17)"
  | .notADirectory => "Not a directory (os error 20)"
  | .isADirectory => "Is a directory (os error 21)"
  | .brokenPipe => "Broken pipe (os error 32)"
  | .nameTooLong => "File name too long (os error 36)"
  | .permissionDenied => "Permission denied (os error 13)"
  | .notExecutable => "Exec format error (os error 8)"
  | .zeroByte => "file name contained an unexpected NUL byte"
  | .zeroByteInCommand => "nul byte found in provided data"
  | .notText => "stream did not contain valid UTF-8"

/-- Contents are compared byte by byte. -/
instance decidableEqContent : DecidableEq ByteArray := ByteArray.decEq

inductive Entry where
  | file (content : ByteArray) (executable : Bool)
  | directory
deriving DecidableEq

/-- A place, as the names that lead to it from the root. -/
abbrev Place := List String

structure FileTree where
  entries : Table Place Entry
  /-- The working directory. -/
  home : Place

namespace FileTree

/-- What stands at a place; the root is always a directory. -/
def find? (t : FileTree) (place : Place) : Option Entry :=
  if place = [] then some .directory else t.entries.get? place

/-- The working directory as a path. -/
def homePath (t : FileTree) : Path := ⟨"/" ++ String.intercalate "/" t.home⟩

/-- Where a path leads. -/
structure Target where
  place : Place
  /-- The path ends in a slash, so only a directory is meant. -/
  directoryOnly : Bool
  /-- The last piece is a name, and not a dot. -/
  named : Bool

/-- One step from a directory. -/
def step (t : FileTree) (here : Place) (segment : List Char) : Except FileFault Place :=
  if segment = [] then .ok here
  else
    match t.find? here with
    | none => .error .notFound
    | some (.file ..) => .error .notADirectory
    | some .directory =>
      if segment = ['.'] then .ok here
      else if segment = ['.', '.'] then .ok here.dropLast
      else if 255 < Text.byteLength segment then .error .nameTooLong
      else .ok (here ++ [.ofList segment])

/-- Follows a path. -/
def walk (t : FileTree) (p : Path) : Except FileFault Target :=
  if '\x00' ∈ p.text.toList then .error .zeroByte
  else if p.isEmpty then .error .notFound
  else if 4095 < Text.byteLength p.text.toList then .error .nameTooLong
  else do
    let place ← p.segments.foldlM t.step (if p.isAbsolute then [] else t.home)
    let last := (p.segments.filter (· ≠ [])).getLast?
    return {
      place
      directoryOnly := p.segments.getLast? == some []
      named := last.any fun s => s ≠ ['.'] && s ≠ ['.', '.'] }

/-- The entry that a path leads to. -/
def lookup (t : FileTree) (p : Path) : Except FileFault Entry := do
  let target ← t.walk p
  match t.find? target.place with
  | none => .error .notFound
  | some .directory => .ok .directory
  | some (.file content executable) =>
    if target.directoryOnly then .error .notADirectory else .ok (.file content executable)

def isFile (t : FileTree) (p : Path) : Bool :=
  match t.lookup p with
  | .ok (.file ..) => true
  | _ => false

def isDirectory (t : FileTree) (p : Path) : Bool :=
  match t.lookup p with
  | .ok .directory => true
  | _ => false

def isExecutable (t : FileTree) (p : Path) : Bool :=
  match t.lookup p with
  | .ok (.file _ executable) => executable
  | _ => false

/-- The content of a file. -/
def read (t : FileTree) (p : Path) : Except FileFault ByteArray := do
  match ← t.lookup p with
  | .file content _ => .ok content
  | .directory => .error .isADirectory

/-- The content of a file that has to be a text. -/
def readText (t : FileTree) (p : Path) : Except FileFault String := do
  match String.fromUTF8? (← t.read p) with
  | some s => .ok s
  | none => .error .notText

/-- Sets what stands at a place. -/
def set (t : FileTree) (place : Place) (e : Entry) : FileTree := { t with entries := t.entries.insert place e }

/-- Creates or replaces a file; the directory has to exist. -/
def write (t : FileTree) (p : Path) (content : ByteArray) : Except FileFault FileTree := do
  let target ← t.walk p
  if target.directoryOnly then .error .isADirectory
  else
    match t.find? target.place with
    | some .directory => .error .isADirectory
    | some (.file _ executable) => .ok (t.set target.place (.file content executable))
    | none =>
      match t.find? target.place.dropLast with
      | some .directory => .ok (t.set target.place (.file content false))
      | some (.file ..) => .error .notADirectory
      | none => .error .notFound

/-- Creates one directory. -/
def makeDirectory (t : FileTree) (p : Path) : Except FileFault FileTree := do
  let target ← t.walk p
  if !target.named then .error .exists
  else
    match t.find? target.place with
    | some _ => .error .exists
    | none =>
      match t.find? target.place.dropLast with
      | some .directory => .ok (t.set target.place .directory)
      | some (.file ..) => .error .notADirectory
      | none => .error .notFound

/-- Creates a directory and those above it, as far as they are missing. -/
def makeDirectoriesFrom (t : FileTree) (p : Path) : (fuel : Nat) → Except FileFault FileTree
  | 0 => .error .notFound
  | fuel + 1 =>
    if p.isEmpty then .ok t
    else
      let retry (t : FileTree) : Except FileFault FileTree :=
        match t.makeDirectory p with
        | .ok t => .ok t
        | .error e => if t.isDirectory p then .ok t else .error e
      match t.makeDirectory p with
      | .ok t => .ok t
      | .error .notFound =>
        match p.parent? with
        | none => .error .notFound
        | some above => (t.makeDirectoriesFrom above fuel).bind retry
      | .error e => if t.isDirectory p then .ok t else .error e

/-- Creates a directory and those above it, as far as they are missing. -/
def makeDirectories (t : FileTree) (p : Path) : Except FileFault FileTree :=
  t.makeDirectoriesFrom p (p.segments.length + 1)

/-- Removes a file. -/
def removeFile (t : FileTree) (p : Path) : Except FileFault FileTree := do
  match ← t.lookup p with
  | .file .. => .ok { t with entries := t.entries.erase (← t.walk p).place }
  | .directory => .error .isADirectory

/-- Removes a place and all below it. -/
def remove (t : FileTree) (place : Place) : FileTree :=
  { t with entries := ⟨t.entries.entries.filter fun e => !place.isPrefixOf e.1⟩ }

/-- Puts an empty directory at a place. -/
def clear (t : FileTree) (place : Place) : FileTree := (t.remove place).set place .directory

/-- Puts what another tree has at a place and below it in the place of what is there. -/
def restore (t : FileTree) (place : Place) (other : FileTree) : FileTree :=
  { t with entries :=
    ⟨(other.entries.entries.filter fun e => place.isPrefixOf e.1) ++ (t.remove place).entries.entries⟩ }

end FileTree

end RosRecipes
