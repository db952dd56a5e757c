import RosRecipes.Proofs.Nix.Literal
import RosRecipes.Recipe

/-!
# The literals of a recipe

A recipe is written in pieces: code, and the literals between it (`Recipe.pieces`, `render_eq`).  The description and
the names of licenses are escaped, all other texts are written as they are.  The root of the source is meant to have an
interpolation, so its line is code.

* A literal ends where its piece ends, and reads as the text it stands for, just if that text is sound
  (`reads_back_iff`): without a carriage return if it is escaped, and plain if it is not.
* A version or a revision that is not plain breaks out of its literal (`values_break_out`).
-/

namespace RosRecipes

/-- A text between quotes. -/
structure Nix.Literal where
  value : String
  /-- Whether the text is escaped. -/
  escaped : Bool
deriving DecidableEq

namespace Nix.Literal

/-- What is written between the quotes. -/
def body (l : Literal) : String := if l.escaped then escape l.value else l.value

/-- The text reads as itself. -/
def Sound (l : Literal) : Prop := if l.escaped then '\r' ∉ l.value.toList else IsPlain l.value.toList

instance : DecidablePred Sound := fun l =>
  inferInstanceAs (Decidable (if l.escaped then '\r' ∉ l.value.toList else IsPlain l.value.toList))

theorem read_body_iff (l : Literal) (rest : List Char) :
    read (l.body.toList ++ '"' :: rest) = .closed l.value.toList rest ↔ l.Sound := by
  unfold body Sound
  cases l.escaped with
  | true =>
    rw [if_pos rfl, if_pos rfl, escape_eq, String.toList_ofList]
    exact read_escapeOnce_iff _ rest
  | false => exact read_self_iff _ rest

end Nix.Literal

/-! ### Texts -/

/-- The texts of a fetch. -/
def GitSource.texts (s : GitSource) : List String :=
  (match s.host with
    | .gitHub owner repository => [owner, repository]
    | .generic url => [url]) ++
  [s.revision, s.sha256] ++ s.sparseCheckout.toList

def Source.texts : Source → List String
  | .git s => s.texts
  | _ => []

def License.text? : License → Option String
  | .known _ => none
  | .custom name => some name

namespace Recipe

open Nix (Literal)

variable {r : Recipe}

/-- The texts that a recipe has between quotes. -/
def literals (r : Recipe) : List Literal :=
  (["ros-" ++ r.distribution ++ "-" ++ r.name, r.version] ++ r.source.texts ++ [r.buildType]).map (⟨·, false⟩) ++
    (r.description :: r.licenses.filterMap License.text?).map (⟨·, true⟩)

/-! ### Pieces -/

inductive Piece where
  | code (text : String)
  | literal (l : Literal)
deriving DecidableEq

def Piece.text : Piece → String
  | .code text => text
  | .literal l => Nix.quoted l.body

def Piece.literal? : Piece → Option Literal
  | .code _ => none
  | .literal l => some l

/-- The text of pieces. -/
def written (pieces : List Piece) : String := String.join (pieces.map Piece.text)

/-- The line of an attribute with a text. -/
def attributePieces (indent name : String) (l : Literal) : List Piece :=
  [.code (indent ++ name ++ " = "), .literal l, .code ";\n"]

def fetchPieces (s : GitSource) : List Piece :=
  (match s.host with
    | .gitHub owner repository =>
      attributePieces "    " "owner" ⟨owner, false⟩ ++ attributePieces "    " "repo" ⟨repository, false⟩
    | .generic url => attributePieces "    " "url" ⟨url, false⟩) ++
  attributePieces "    " "rev" ⟨s.revision, false⟩ ++ attributePieces "    " "sha256" ⟨s.sha256, false⟩ ++
  (match s.sparseCheckout with
    | some path =>
      [.code "    sparseCheckout = [", .literal ⟨path, false⟩, .code "];\n    nonConeMode = true;\n"]
    | none => [])

def sourcePieces : Source → List Piece
  | .parameter name => [.code name]
  | .directory path => [.code path]
  | .git s => [.code (s.host.fetcher ++ " \x7b\n")] ++ fetchPieces s ++ [.code "  \x7d"]

def licensePieces : License → List Piece
  | .known name => [.code (" " ++ name)]
  | .custom name => [.code " ", .literal ⟨name, true⟩]

/-- The pieces of a recipe below its notice. -/
def pieces (r : Recipe) : List Piece :=
  [.code ("\x7b " ++ String.intercalate ", " r.parameters ++ " \x7d:\nbuildRosPackage rec \x7b\n")] ++
  attributePieces "  " "pname" ⟨"ros-" ++ r.distribution ++ "-" ++ r.name, false⟩ ++
  attributePieces "  " "version" ⟨r.version, false⟩ ++
  [.code "\n  src = "] ++ sourcePieces r.source ++ [.code ";\n\n"] ++
  attributePieces "  " "buildType" ⟨r.buildType, false⟩ ++
  [.code (String.join (r.optionalLines.map (· ++ "\n")) ++ "\n  meta = \x7b\n")] ++
  attributePieces "    " "description" ⟨r.description, true⟩ ++
  [.code "    license = with lib.licenses; ["] ++ r.licenses.flatMap licensePieces ++
  [.code " ];\n  \x7d;\n\x7d\n"]

@[simp]
theorem written_nil : written [] = "" := rfl

@[simp]
theorem written_cons (p : Piece) (ps : List Piece) : written (p :: ps) = p.text ++ written ps := by
  simp [written]

@[simp]
theorem written_append (ps qs : List Piece) : written (ps ++ qs) = written ps ++ written qs := by
  simp [written]

theorem written_attributePieces (indent name : String) (l : Literal) :
    written (attributePieces indent name l) = indent ++ textAttribute name l.body ++ "\n" := by
  rw [← String.toList_inj]
  simp [attributePieces, textAttribute, Piece.text]

theorem written_fetchPieces (s : GitSource) :
    written (fetchPieces s) = String.join ((fetchAttributes s).map fun a => "    " ++ a ++ "\n") := by
  unfold fetchPieces fetchAttributes
  rw [← String.toList_inj]
  cases s.host <;> cases s.sparseCheckout <;>
    simp [written_attributePieces, Literal.body, Piece.text, Nix.quoted]

theorem written_sourcePieces (source : Source) : written (sourcePieces source) = renderSource source := by
  cases source with
  | parameter name => simp [sourcePieces, renderSource, Piece.text]
  | directory path => simp [sourcePieces, renderSource, Piece.text]
  | git s => simp [sourcePieces, renderSource, written_fetchPieces, Piece.text, String.append_assoc]

theorem written_licensePieces (licenses : List License) :
    "[" ++ written (licenses.flatMap licensePieces) ++ " ]" = Nix.list (licenses.map License.render) := by
  have hitems : ∀ licenses : List License,
      written (licenses.flatMap licensePieces) = String.join ((licenses.map License.render).map (" " ++ ·)) := by
    intro licenses
    induction licenses with
    | nil => rfl
    | cons license licenses ih =>
      rw [List.flatMap_cons, written_append, ih]
      cases license <;> simp [licensePieces, License.render, Piece.text, Literal.body, String.append_assoc]
  rw [hitems, Nix.list]

/-- A recipe is its notice and its pieces. -/
theorem render_eq (r : Recipe) (notice : Notice) : r.render notice = notice.render ++ written r.pieces := by
  unfold render lines pieces
  rw [← written_sourcePieces, ← written_licensePieces, ← String.toList_inj]
  simp [written_attributePieces, Literal.body, Piece.text]

theorem filterMap_code (text : String) : [Piece.code text].filterMap Piece.literal? = [] := rfl

theorem filterMap_attributePieces (indent name : String) (l : Literal) :
    (attributePieces indent name l).filterMap Piece.literal? = [l] := rfl

theorem filterMap_sourcePieces (source : Source) :
    (sourcePieces source).filterMap Piece.literal? = source.texts.map (⟨·, false⟩) := by
  cases source with
  | parameter name => rfl
  | directory path => rfl
  | git s =>
    obtain ⟨host, revision, sha256, subdirectory, sparseCheckout⟩ := s
    cases host <;> cases sparseCheckout <;> rfl

theorem filterMap_licensePieces (licenses : List License) :
    (licenses.flatMap licensePieces).filterMap Piece.literal? =
      (licenses.filterMap License.text?).map (⟨·, true⟩) := by
  induction licenses with
  | nil => rfl
  | cons license licenses ih =>
    rw [List.flatMap_cons, List.filterMap_append, ih]
    cases license <;> rfl

theorem filterMap_pieces (r : Recipe) : r.pieces.filterMap Piece.literal? = r.literals := by
  unfold pieces literals
  simp only [List.filterMap_append, filterMap_code, filterMap_attributePieces, filterMap_sourcePieces,
    filterMap_licensePieces]
  simp

/-- The literals of a recipe are its name, its version, what it fetches, its build type, its description and its own
licenses.  Each of them reads as the text it stands for, and ends where it was closed, just if that text is sound: the
escaped ones have no carriage return, and the others nothing that would have to be escaped either. -/
theorem reads_back_iff (r : Recipe) (notice : Notice) :
    r.pieces.filterMap Piece.literal? = r.literals ∧
    ∀ before l after, r.pieces = before ++ .literal l :: after →
      r.render notice = notice.render ++ written before ++ "\"" ++ l.body ++ "\"" ++ written after ∧
      (Nix.read (l.body.toList ++ '"' :: (written after).toList) = .closed l.value.toList (written after).toList ↔
        l.Sound) := by
  refine ⟨filterMap_pieces r, fun before l after h => ⟨?_, Literal.read_body_iff l _⟩⟩
  rw [render_eq, h, written_append, written_cons, Piece.text, Nix.quoted]
  simp only [String.append_assoc]

/-- The description of a recipe that has quotes and what looks like an interpolation. -/
theorem description_reads_back :
    let r : Recipe :=
      { name := "demo", version := "1.2.0", description := "Say \"hi\" to $\x7bname\x7d",
        licenses := [.custom "My own"], distribution := "rolling", buildType := "ament_cmake", inputs := {},
        options := {},
        source := .git { host := .gitHub "owner" "demo", revision := "0a1b", sha256 := "2c3d" } }
    let l : Literal := ⟨r.description, true⟩
    let after := r.pieces.drop 29
    r.pieces = r.pieces.take 28 ++ .literal l :: after ∧
    Nix.read (l.body.toList ++ '"' :: (written after).toList) =
      .closed r.description.toList (written after).toList := by
  intro r l after
  have hpieces : r.pieces = r.pieces.take 28 ++ .literal l :: after := by decide +kernel
  exact ⟨hpieces, (((reads_back_iff r { year := "2024" }).2 _ l after hpieces).2).2 (by decide +kernel)⟩

/-- A version with a quote ends early and writes an attribute of its own, and a revision opens an interpolation. -/
theorem values_break_out :
    let r : Recipe :=
      { name := "demo", version := "1\"; doCheck = \"", description := "", licenses := [], distribution := "rolling",
        buildType := "catkin", inputs := {}, options := {},
        source := .git { host := .generic "file:///demo", revision := "$\x7bname\x7d", sha256 := "2c3d" } }
    let version : Literal := ⟨r.version, false⟩
    let revision : Literal := ⟨"$\x7bname\x7d", false⟩
    r.pieces = r.pieces.take 5 ++ .literal version :: r.pieces.drop 6 ∧
    Nix.read (version.body.toList ++ '"' :: (written (r.pieces.drop 6)).toList) =
      .closed ['1'] ("; doCheck = \"\"".toList ++ (written (r.pieces.drop 6)).toList) ∧
    r.pieces = r.pieces.take 13 ++ .literal revision :: r.pieces.drop 14 ∧
    Nix.read (revision.body.toList ++ '"' :: (written (r.pieces.drop 14)).toList) = .interpolation := by
  intro r version revision
  have hversion : version.body.toList = '1' :: '"' :: "; doCheck = \"".toList := by decide
  have hrevision : revision.body.toList = '$' :: '\x7b' :: "name\x7d".toList := by decide
  refine ⟨by decide +kernel, ?_, by decide +kernel, ?_⟩
  · rw [hversion, List.cons_append, List.cons_append, Nix.read_cons (by decide), Nix.read]
    simp [Nix.Reading.after]
  · rw [hrevision]
    rfl

end Recipe

end RosRecipes
