import RosRecipes.Text.Blank
import RosRecipes.Text.Search

/-!
# Names, texts and licenses in Nix

The attribute name of a package is its name with hyphens in the place of underscores.  A double-quoted literal ends at a
quote, and `${` opens an interpolation in it, unless a backslash stands before them.

A manifest names licenses freely.  Names that have an attribute in the license set of Nix become that
attribute, after well-known spellings have been brought to one; all others become texts.

* `attributeName` is the name of a package, `License.render` the license,
* `Nix.escape` writes a text so that it can stand between the quotes.
-/

namespace RosRecipes

/-- The name of the attribute of a package. -/
def attributeName (name : String) : String := .ofList (name.toList.map fun c => if c = '_' then '-' else c)

/-! ### Texts and lists -/

namespace Nix

/-- Puts a backslash before every backslash, every `${` and every quote. -/
def escape (s : String) : String :=
  let s := Text.replace "\\" "\\\\" s
  let s := Text.replace "$\x7b" "\\$\x7b" s
  Text.replace "\"" "\\\"" s

/-- A text between quotes, without any escape. -/
def quoted (s : String) : String := "\"" ++ s ++ "\""

/-- A list of expressions. -/
def list (items : List String) : String := "[" ++ String.join (items.map (" " ++ ·)) ++ " ]"

end Nix

/-! ### Licenses -/

inductive License where
  /-- An attribute of the license set. -/
  | known (name : String)
  | custom (name : String)
deriving DecidableEq, Repr

namespace License

/-- Spellings in use, and the name each stands for. -/
def spellings : List (String × String) :=
  [("Apache License 2.0", "Apache-2.0"),
   ("Apache License, Version 2.0", "Apache-2.0"),
   ("Apache 2.0", "Apache-2.0"),
   ("Apache2", "Apache-2.0"),
   ("Apache", "Apache-2.0"),
   ("BSD 2-Clause", "BSD-2"),
   ("BSD-2-Clause", "BSD-2"),
   ("BSD 3-Clause", "BSD-3-Clause"),
   ("BSD-3", "BSD-3-Clause"),
   ("Boost Software License 1.0", "Boost-1.0"),
   ("BSL-1.0", "Boost-1.0"),
   ("GPLv2", "GPL-2"),
   ("GPL-2.0", "GPL-2"),
   ("GPLv3", "GPL-3"),
   ("GPL-3.0", "GPL-3"),
   ("LGPLv2.1", "LGPL-2.1"),
   ("LGPL-2.1-only", "LGPL-2.1"),
   ("LGPLv3", "LGPL-3"),
   ("LGPL-3.0", "LGPL-3"),
   ("MPL 2.0", "MPL-2.0"),
   ("Public Domain", "PD")]

/-- The attributes of names. -/
def attributes : List (String × String) :=
  [("Apache-2.0", "asl20"),
   ("ASL 2.0", "asl20"),
   ("Boost-1.0", "boost"),
   ("BSD-2", "bsd2"),
   ("BSD-3-Clause", "bsd3"),
   ("BSD", "bsdOriginal"),
   ("CC-BY-NC-SA-4.0", "cc-by-nc-sa-40"),
   ("GPL-1", "gpl1"),
   ("GPL-2", "gpl2"),
   ("GPL-3.0-only", "gpl3Only"),
   ("GPL-3", "gpl3"),
   ("LGPL-2.1", "lgpl21"),
   ("LGPL-2", "lgpl2"),
   ("LGPL-3.0-only", "lgpl3Only"),
   ("LGPL-3", "lgpl3"),
   ("MIT", "mit"),
   ("MPL-1.0", "mpl10"),
   ("MPL-1.1", "mpl11"),
   ("MPL-2.0", "mpl20"),
   ("PD", "publicDomain")]

/-- The license that a manifest names: spellings are compared without regard to the case of ASCII letters,
names exactly. -/
def ofManifest (name : String) : License :=
  let name := Text.trimmed name
  let standard :=
    match spellings.find? fun s => Text.asciiLower s.1 = Text.asciiLower name with
    | some (_, standard) => standard
    | none => name
  match attributes.lookup standard with
  | some name => .known name
  | none => .custom name

/-- The license as a Nix expression within the license set. -/
def render : License → String
  | .known name => name
  | .custom name => Nix.quoted (Nix.escape name)

end License

end RosRecipes
