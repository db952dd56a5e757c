import RosRecipes.SharedStart
import RosRecipes.Text.Blank

/-!
# Paths

A path is kept as it was written.  Its components leave out repeated slashes, and dots that are not at the
start; two paths with the same components name the same place, whatever the working directory.

* `parent?`, `fileName?` and `join` work on the written text,
* `normalForm` resolves `.` and `..` without looking at any directory,
* `relativeTo` leads from one place to another through their common ancestor.
-/

namespace RosRecipes

structure Path where
  text : String
deriving DecidableEq, Repr, Inhabited

namespace Path

inductive Component where
  | root
  | current
  | parent
  | name (name : String)
deriving DecidableEq, Repr

def Component.text : Component → String
  | .root => "/"
  | .current => "."
  | .parent => ".."
  | .name n => n

/-- The pieces between slashes. -/
def segments (p : Path) : List (List Char) := Text.split '/' p.text.toList

def isEmpty (p : Path) : Bool := p.text.isEmpty

def isAbsolute (p : Path) : Bool := p.text.toList.head? == some '/'

/-- A piece that names nothing. -/
def isIdle (segment : List Char) : Bool := segment == [] || segment == ['.']

/-- What a piece after the start names. -/
def componentOf? (segment : List Char) : Option Component :=
  if isIdle segment then none
  else if segment = ['.', '.'] then some .parent
  else some (.name (.ofList segment))

/-- The start of a path (the root, a leading dot or nothing) and the pieces after it. -/
def anchor (p : Path) : Option Component × List (List Char) :=
  match p.segments with
  | [] :: segment :: rest => (some .root, segment :: rest)
  | ['.'] :: rest => (some .current, rest)
  | segments => (none, segments)

def components (p : Path) : List Component :=
  let (start, body) := p.anchor
  start.toList ++ body.filterMap componentOf?

/-- Drops the pieces at the end that name nothing. -/
def dropIdleEnd (segments : List (List Char)) : List (List Char) :=
  (segments.reverse.dropWhile isIdle).reverse

def ofAnchor (start : Option Component) (body : List (List Char)) : Path :=
  let body := Text.join ['/'] body
  match start with
  | none => ⟨.ofList body⟩
  | some .current => if body.isEmpty then ⟨"."⟩ else ⟨"./" ++ .ofList body⟩
  | some start => ⟨start.text ++ .ofList body⟩

/-- The path without its last component; the root and the empty path have none. -/
def parent? (p : Path) : Option Path :=
  let (start, body) := p.anchor
  match dropIdleEnd body with
  | [] => if start = some .current then some ⟨""⟩ else none
  | body => some (ofAnchor start (dropIdleEnd body.dropLast))

/-- The last component, if it is a name. -/
def fileName? (p : Path) : Option String :=
  match p.components.getLast? with
  | some (.name n) => some n
  | _ => none

/-- The place that `q` names below `p`; an absolute `q` stands for itself. -/
def join (p q : Path) : Path :=
  if q.isAbsolute then q
  else if p.isEmpty || p.text.toList.getLast? == some '/' then ⟨p.text ++ q.text⟩
  else ⟨p.text ++ "/" ++ q.text⟩

instance : HDiv Path String Path := ⟨fun p name => p.join ⟨name⟩⟩

/-- The path with the given components. -/
def ofComponents (cs : List Component) : Path := cs.foldl (fun p c => p / c.text) ⟨""⟩

/-! ### Normal forms -/

/-- Follows one component: `..` leads back one step, and stays at the root. -/
def follow (here : List Component) : Component → List Component
  | .current => here
  | .parent => if here.getLast? = some .root then here else here.dropLast
  | .root => [.root]
  | .name n => here ++ [.name n]

/-- The components of `p` as seen from the working directory; the empty path names no place. -/
def absoluteComponents (p cwd : Path) : List Component :=
  if p.isEmpty then [] else if p.isAbsolute then p.components else cwd.components ++ p.components

/-- The place that `p` names, without `.` and `..`. -/
def normalForm (p cwd : Path) : List Component := (p.absoluteComponents cwd).foldl follow []

/-- The way from `base` to `p`: up to the last common place, then down. -/
def relativeTo (p base cwd : Path) : Path :=
  let there := p.normalForm cwd
  let here := base.normalForm cwd
  let shared := sharedStart there here
  ofComponents (List.replicate (here.length - shared) .parent ++ there.drop shared)

end Path

end RosRecipes
