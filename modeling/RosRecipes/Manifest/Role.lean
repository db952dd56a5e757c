/-!
# Roles of dependencies

What a package needs another one for.  A dependency element of a manifest stands for one role or for
several, depending on the format of the manifest (`Role.ofTag?`).
-/

namespace RosRecipes

inductive Role where
  | build
  | buildTool
  | buildExport
  | buildToolExport
  | exec
  | run
  | test
  | doc
deriving DecidableEq, Repr

namespace Role

def name : Role → String
  | .build => "build"
  | .buildTool => "buildtool"
  | .buildExport => "build_export"
  | .buildToolExport => "buildtool_export"
  | .exec => "exec"
  | .run => "run"
  | .test => "test"
  | .doc => "doc"

/-- All roles, in the order in which they are listed. -/
def all : List Role := [.build, .buildTool, .buildExport, .buildToolExport, .exec, .run, .test, .doc]

/-- The roles of a dependency element; `none` for other elements. -/
def ofTag? (format : Nat) : String → Option (List Role)
  | "build_depend" => some [.build]
  | "buildtool_depend" => some [.buildTool]
  | "build_export_depend" => some [.buildExport]
  | "buildtool_export_depend" => some [.buildToolExport]
  | "exec_depend" => some [.exec]
  | "test_depend" => some [.test]
  | "doc_depend" => some [.doc]
  | "depend" => if 2 ≤ format then some [.build, .buildExport, .exec] else none
  | "run_depend" => if format = 1 then some [.run, .buildExport, .exec] else none
  | _ => none

end Role

end RosRecipes
