import RosRecipes.FlakeReference
import RosRecipes.Text.Blank

/-!
# Files of a package set

The files beside the recipes that tie them together: an overlay that defines every package, a default
expression that applies the overlay, a shell with all that the packages need from outside, and a flake.

* `overlay`, `shell`, `flake` and `default` give their texts.
-/

namespace RosRecipes.PackageSet

open Text (unlines)

/-- The first line of a generated file. -/
def generatedBy (commandLine : String) : String := "# Automatically generated by: " ++ commandLine ++ "\n"

/-- Puts a start before every line that is not blank, and drops the last line ending. -/
def indent (start text : String) : String :=
  let lines := (Text.lines text.toList).map fun line =>
    if line.all Text.isBlank then line else start.toList ++ line
  .ofList (Text.join ['\n'] lines)

/-- Definitions that apply the overlay to the package sets of all distributions. -/
def overlayDefinitions : String := String.intercalate "\n"
  ["applyDistroOverlay =",
   "  rosOverlay: rosPackages:",
   "  rosPackages",
   "  // builtins.mapAttrs (",
   "    rosDistro: rosPkgs: if rosPkgs ? overrideScope then rosPkgs.overrideScope rosOverlay else rosPkgs",
   "  ) rosPackages;",
   "rosDistroOverlays = final: prev: \x7b",
   "  # Apply the overlay to multiple ROS distributions",
   "  rosPackages = applyDistroOverlay (import ./overlay.nix) prev.rosPackages;",
   "\x7d;"]

/-- The overlay: one attribute per package, with the file of its recipe. -/
def overlay (entries : List (String × String)) : String :=
  unlines (["final: prev:", "\x7b"] ++
    (entries.map fun (name, file) => "  " ++ name ++ " = final.callPackage ./" ++ file ++ " \x7b\x7d;") ++ ["\x7d"])

/-- The default expression, on top of the package set `overlay`. -/
def default (overlay : String) : String := unlines
  ["\x7b",
   "  nix-ros-overlay ? " ++ overlay ++ ",",
   "\x7d:",
   "let",
   indent "  " overlayDefinitions,
   "in",
   "import nix-ros-overlay \x7b",
   "  overlays = [ rosDistroOverlays ];",
   "\x7d"]

/-- The lines of the shell above the list of its packages, on top of the package set `overlay`. -/
def shellStart (overlay distribution : String) : List String :=
  ["\x7b",
   "  nix-ros-overlay ? " ++ overlay ++ ",",
   "  pkgs ? import nix-ros-overlay \x7b \x7d,",
   "  rosDistro ? \"" ++ distribution ++ "\",",
   "  extraPkgs ? \x7b \x7d,",
   "  extraPaths ? [ ],",
   "  withPackages ? _: [ ],",
   "  extraShellHook ? \"\",",
   "\x7d:",
   "pkgs.mkShell \x7b",
   "  name = \"ros2nix $\x7brosDistro\x7d shell\";",
   "  packages = [",
   "    (pkgs.rosPackages.$\x7brosDistro\x7d.buildEnv \x7b",
   "      wrapPrograms = false;",
   "      paths =",
   "        [",
   "          pkgs.colcon",
   "          pkgs.rosPackages.$\x7brosDistro\x7d.ros-core",
   "",
   "          # Work around https://github.com/lopsided98/nix-ros-overlay/pull/624",
   "          pkgs.rosPackages.$\x7brosDistro\x7d.ament-cmake-core",
   "          pkgs.rosPackages.$\x7brosDistro\x7d.python-cmake-module",
   "        ]",
   "        ++ (",
   "          with pkgs;",
   "          with pkgs.rosPackages.$\x7brosDistro\x7d;",
   "          with extraPkgs;"]

/-- The lines of the shell below the list of its packages. -/
def shellEnd : List String :=
  ["        )",
   "        ++ builtins.attrValues extraPkgs",
   "        ++ extraPaths",
   "        ++ withPackages (pkgs // pkgs.rosPackages.$\x7brosDistro\x7d);",
   "      \x7d",
   "    )",
   "  ];",
   "  shellHook = ''",
   "    # Setup ROS 2 shell completion. Doing it in direnv is useless.",
   "    if [[ ! $DIRENV_IN_ENVRC ]]; then",
   "        eval \"$($\x7bpkgs.python3Packages.argcomplete\x7d/bin/register-python-argcomplete ros2)\"",
   "        eval \"$($\x7bpkgs.python3Packages.argcomplete\x7d/bin/register-python-argcomplete colcon)\"",
   "    fi",
   "  '' + extraShellHook;",
   "\x7d"]

/-- The shell, on top of the package set `overlay`, with the given packages. -/
def shell (overlay distribution : String) (packages : List String) (commandLine : String) : String :=
  generatedBy commandLine ++
    unlines (shellStart overlay distribution ++
      ["          [",
       "            # Dependencies from package.xml files",
       indent "            " (String.intercalate "\n" packages),
       "          ]"] ++
      shellEnd)

/-- The flake; the reference is its input as it stands. -/
def flake (reference distribution : String) : String := unlines
  ["",
   "\x7b",
   "  inputs = \x7b",
   "    nix-ros-overlay.url = \"" ++ reference ++ "\";",
   "    nixpkgs.follows = \"nix-ros-overlay/nixpkgs\";  # IMPORTANT!!!",
   "  \x7d;",
   "  outputs = \x7b self, nix-ros-overlay, nixpkgs \x7d:",
   "    nix-ros-overlay.inputs.flake-utils.lib.eachDefaultSystem (system:",
   "      let",
   indent "        " overlayDefinitions,
   "        pkgs = import nixpkgs \x7b",
   "          inherit system;",
   "          overlays = [",
   "            nix-ros-overlay.overlays.default",
   "            rosDistroOverlays",
   "          ];",
   "        \x7d;",
   "",
   "        rosDistro = \"" ++ distribution ++ "\";",
   "",
   "      in \x7b",
   "        legacyPackages = pkgs.rosPackages;",
   "        packages = builtins.intersectAttrs (import ./overlay.nix null null) pkgs.rosPackages.$\x7brosDistro\x7d;",
   "        checks = builtins.intersectAttrs (import ./overlay.nix null null) pkgs.rosPackages.$\x7brosDistro\x7d;",
   "        devShells.default = import ./shell.nix \x7b",
   "          inherit pkgs rosDistro;",
   "          extraPkgs = \x7b \x7d;",
   "          extraPaths = [ ];",
   "        \x7d;",
   "      \x7d);",
   "  nixConfig = \x7b",
   "    extra-substituters = [ \"https://ros.cachix.org\" ];",
   "    extra-trusted-public-keys = [ \"ros.cachix.org-1:dSyZxI8geDCJrwgvCOHDoAfOm5sV1wCPjBkKL+38Rvo=\" ];",
   "  \x7d;",
   "\x7d"]

end RosRecipes.PackageSet
