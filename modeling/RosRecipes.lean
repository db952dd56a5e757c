import RosRecipes.Categories
import RosRecipes.Classification
import RosRecipes.Command
import RosRecipes.Command.Completion
import RosRecipes.Command.Script
import RosRecipes.CommandLine.Arguments
import RosRecipes.CommandLine.Basic
import RosRecipes.CommandLine.Option
import RosRecipes.Condition.Basic
import RosRecipes.Condition.Expression
import RosRecipes.Condition.Token
import RosRecipes.Configuration
import RosRecipes.Diff.Script
import RosRecipes.Diff.Shortest
import RosRecipes.Diff.Sliding
import RosRecipes.Diff.Unified
import RosRecipes.Error
import RosRecipes.FileTree
import RosRecipes.FlakeReference
import RosRecipes.Generation.Package
import RosRecipes.Generation.Run
import RosRecipes.Generation.TopLevel
import RosRecipes.Json
import RosRecipes.Main
import RosRecipes.Manifest.Basic
import RosRecipes.Manifest.Reading
import RosRecipes.Manifest.Role
import RosRecipes.NameSet
import RosRecipes.Naming
import RosRecipes.Output
import RosRecipes.PackageSet
import RosRecipes.Path
import RosRecipes.Program
import RosRecipes.Proofs.Action
import RosRecipes.Proofs.Classification
import RosRecipes.Proofs.CommandLine.Acceptance
import RosRecipes.Proofs.CommandLine.Line
import RosRecipes.Proofs.CommandLine.Rearrangement
import RosRecipes.Proofs.CommandLine.Variation
import RosRecipes.Proofs.Condition.Grammar
import RosRecipes.Proofs.Condition.Lexeme
import RosRecipes.Proofs.Condition.Reading
import RosRecipes.Proofs.Diff.Patching
import RosRecipes.Proofs.Diff.Reading
import RosRecipes.Proofs.Diff.Rejoining
import RosRecipes.Proofs.Diff.Sliding
import RosRecipes.Proofs.Exchange
import RosRecipes.Proofs.FileTree.Creation
import RosRecipes.Proofs.FileTree.Growth
import RosRecipes.Proofs.FileTree.Rewriting
import RosRecipes.Proofs.FlakeReference
import RosRecipes.Proofs.Generation.Ambiguity
import RosRecipes.Proofs.Generation.Comparison
import RosRecipes.Proofs.Generation.Destinations
import RosRecipes.Proofs.Generation.EarlyFailure
import RosRecipes.Proofs.Generation.Emission
import RosRecipes.Proofs.Generation.Failures
import RosRecipes.Proofs.Generation.Independence
import RosRecipes.Proofs.Generation.Keeping
import RosRecipes.Proofs.Generation.Lockstep
import RosRecipes.Proofs.Generation.Outcomes
import RosRecipes.Proofs.Generation.Overwriting
import RosRecipes.Proofs.Generation.Preparation
import RosRecipes.Proofs.Generation.PrintedDiff
import RosRecipes.Proofs.Generation.Record
import RosRecipes.Proofs.Generation.Siblings
import RosRecipes.Proofs.Host
import RosRecipes.Proofs.Json.RoundTrip
import RosRecipes.Proofs.LocalSource
import RosRecipes.Proofs.Manifest.Description
import RosRecipes.Proofs.Manifest.Reading
import RosRecipes.Proofs.Nix.Expression
import RosRecipes.Proofs.Nix.Literal
import RosRecipes.Proofs.Path.Relative
import RosRecipes.Proofs.Provenance.Caches
import RosRecipes.Proofs.Provenance.Extraction
import RosRecipes.Proofs.Provenance.Fetching
import RosRecipes.Proofs.Provenance.History
import RosRecipes.Proofs.Provenance.Keys
import RosRecipes.Proofs.Provenance.Ledger
import RosRecipes.Proofs.Provenance.Patches
import RosRecipes.Proofs.Provenance.Remembering
import RosRecipes.Proofs.Provenance.Repository
import RosRecipes.Proofs.Provenance.Storage
import RosRecipes.Proofs.Recipe.Literals
import RosRecipes.Proofs.Recipe.Names
import RosRecipes.Proofs.Rosdep.Alternatives
import RosRecipes.Proofs.Rosdep.Answers
import RosRecipes.Proofs.Rosdep.Documents
import RosRecipes.Proofs.Rosdep.Requests
import RosRecipes.Proofs.Rosdep.Systems
import RosRecipes.Proofs.Shell.Directories
import RosRecipes.Proofs.Shell.Pattern
import RosRecipes.Proofs.Shell.Quoting
import RosRecipes.Proofs.Text.Lines
import RosRecipes.Provenance.Cache
import RosRecipes.Provenance.Patches
import RosRecipes.Provenance.Prefetch
import RosRecipes.Provenance.Prefetched
import RosRecipes.Provenance.Repository
import RosRecipes.Provenance.Resolution
import RosRecipes.Provenance.Storage
import RosRecipes.Recipe
import RosRecipes.Rosdep.Database
import RosRecipes.Rosdep.Rules
import RosRecipes.SharedStart
import RosRecipes.Shell.Arithmetic
import RosRecipes.Shell.Evaluation
import RosRecipes.Shell.Expansion
import RosRecipes.Shell.Filter
import RosRecipes.Shell.Format
import RosRecipes.Shell.Launch
import RosRecipes.Shell.Node
import RosRecipes.Shell.Pattern
import RosRecipes.Shell.Process
import RosRecipes.Shell.Program
import RosRecipes.Shell.Redirection
import RosRecipes.Shell.Token
import RosRecipes.Shell.Tool
import RosRecipes.Source
import RosRecipes.Table
import RosRecipes.Text.Blank
import RosRecipes.Text.Hidden
import RosRecipes.Text.Search
import RosRecipes.Text.Utf8
import RosRecipes.World
import RosRecipes.Xml.Entity
import RosRecipes.Xml.Event
import RosRecipes.Yaml.Cursor
import RosRecipes.Yaml.Node
import RosRecipes.Yaml.Number
import RosRecipes.Yaml.Token.Scalar
import RosRecipes.Yaml.Token.Scan
import RosRecipes.Yaml.Value
