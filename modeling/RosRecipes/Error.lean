import RosRecipes.Command
import RosRecipes.Manifest.Reading
import RosRecipes.Text.Hidden

/-!
# Errors

What can go wrong, each with its cause.  An error concerns one manifest, unless it is fatal for the run: then
the manifests after it are not looked at.

* `Error.message` is the wording, `Error.isFatal` tells what ends a run.
-/

namespace RosRecipes

/-- What is wrong with the output of a successful command. -/
inductive OutputFault where
  | notOneLine (got : String)
  | noCommit (directory : Path)
  | noPatch
  | notAFile (path : Path)
  | notText (fault : Text.Utf8Fault)
  | notJson
deriving DecidableEq, Repr

def OutputFault.message : OutputFault → String
  | .notOneLine got => "expected a single line, got " ++ Text.quote got
  | .noCommit directory => "no commit touches " ++ directory.text
  | .noPatch => "no patch file reported"
  | .notAFile path => "not a file: " ++ path.text
  | .notText fault => fault.message
  | .notJson => "<json>"

/-- What is wrong with a configuration. -/
inductive ConfigurationFault where
  | patchesWithoutFetch
  | noManifest
deriving DecidableEq, Repr

def ConfigurationFault.message : ConfigurationFault → String
  | .patchesWithoutFetch => "--patches cannot be used without --fetch"
  | .noManifest => "no package.xml given"

inductive Error where
  /-- A dependency is known, but has no package on the target system. -/
  | unresolved (package name : String) (role : Role)
  | unsupportedReference (reference : String)
  /-- Two patches of a run have the same destination. -/
  | patchCollision (path : Path)
  | commandFailed (command : String) (directory : Path) (status stderr : String)
  | invalidOutput (command : String) (fault : OutputFault)
  /-- The repository follows no remote branch. -/
  | noRemoteBranch (toplevel : Path)
  | manifest (path : Path) (fault : Manifest.Fault)
  | configuration (fault : ConfigurationFault)
  | write (path : Path) (fault : FileFault)
  | file (fault : FileFault)
  | yaml
deriving DecidableEq, Repr

namespace Error

def message : Error → String
  | .unresolved package name role =>
    "Unresolved dependency '" ++ name ++ "' (" ++ role.name ++ ") of package '" ++ package ++ "'"
  | .unsupportedReference reference => "Unsupported source reference: \"" ++ reference ++ "\""
  | .patchCollision path => "Patch " ++ path.text ++ " already exists"
  | .commandFailed command directory status stderr =>
    "Command `" ++ command ++ "` failed in " ++ directory.text ++ " (" ++ status ++ "): " ++ stderr
  | .invalidOutput command fault => "Unexpected output from `" ++ command ++ "`: " ++ fault.message
  | .noRemoteBranch toplevel => "No remote-tracking refs under refs/remotes/origin in " ++ toplevel.text
  | .manifest path fault => "Failed to parse " ++ path.text ++ ": " ++ fault.message
  | .configuration fault => "Invalid configuration: " ++ fault.message
  | .write path fault => "Failed to write " ++ path.text ++ ": " ++ fault.message
  | .file fault => "I/O error: " ++ fault.message
  | .yaml => "YAML error: <yaml>"

/-- Does the error end the run, instead of one manifest? -/
def isFatal : Error → Bool
  | .patchCollision _ => true
  | _ => false

end Error

end RosRecipes
