import Depsolve.Constraint.Basic
import Depsolve.Constraint.Range
import Depsolve.Digest.Blake3
import Depsolve.Digest.Signature
import Depsolve.Disk.Basic
import Depsolve.Disk.Path
import Depsolve.Disk.Volume
import Depsolve.Fault
import Depsolve.Graph.Basic
import Depsolve.Graph.Order
import Depsolve.Import.Analyzer
import Depsolve.Import.Convert
import Depsolve.Import.Expectation
import Depsolve.Import.Foreign
import Depsolve.Import.Pinned
import Depsolve.ImportPath
import Depsolve.Json.Reader
import Depsolve.Json.Shape
import Depsolve.Json.Value
import Depsolve.Lock.Basic
import Depsolve.Lock.File
import Depsolve.Manifest.Basic
import Depsolve.Manifest.File
import Depsolve.PackageTree
import Depsolve.Preference
import Depsolve.Project
import Depsolve.Proofs.Constraint.Admission
import Depsolve.Proofs.Constraint.Range
import Depsolve.Proofs.Except
import Depsolve.Proofs.Graph.Reach
import Depsolve.Proofs.Import.Entries
import Depsolve.Proofs.Import.Lookup
import Depsolve.Proofs.Import.Order
import Depsolve.Proofs.Import.Outcome
import Depsolve.Proofs.Import.Persistence
import Depsolve.Proofs.Import.Policy
import Depsolve.Proofs.Import.Summary
import Depsolve.Proofs.Lock.File
import Depsolve.Proofs.Lock.Projects
import Depsolve.Proofs.Lock.Reread
import Depsolve.Proofs.Manifest.File
import Depsolve.Proofs.Manifest.Reread
import Depsolve.Proofs.Semver.Numbers
import Depsolve.Proofs.Semver.Requirement
import Depsolve.Proofs.Solve.Agreement
import Depsolve.Proofs.Solve.Assignment
import Depsolve.Proofs.Solve.Backing
import Depsolve.Proofs.Solve.Bare
import Depsolve.Proofs.Solve.Blame
import Depsolve.Proofs.Solve.Candidates
import Depsolve.Proofs.Solve.Causes
import Depsolve.Proofs.Solve.Closure
import Depsolve.Proofs.Solve.Completeness
import Depsolve.Proofs.Solve.Course
import Depsolve.Proofs.Solve.Decisions
import Depsolve.Proofs.Solve.Discipline
import Depsolve.Proofs.Solve.Ending
import Depsolve.Proofs.Solve.Exactness
import Depsolve.Proofs.Solve.Expansion
import Depsolve.Proofs.Solve.Failures
import Depsolve.Proofs.Solve.Graph
import Depsolve.Proofs.Solve.Idempotence
import Depsolve.Proofs.Solve.Least
import Depsolve.Proofs.Solve.Limits
import Depsolve.Proofs.Solve.Links
import Depsolve.Proofs.Solve.Memo
import Depsolve.Proofs.Solve.Nesting
import Depsolve.Proofs.Solve.Outcome
import Depsolve.Proofs.Solve.Overrides
import Depsolve.Proofs.Solve.Ownership
import Depsolve.Proofs.Solve.Plain
import Depsolve.Proofs.Solve.Reach
import Depsolve.Proofs.Solve.Reached
import Depsolve.Proofs.Solve.Recall
import Depsolve.Proofs.Solve.Recurrence
import Depsolve.Proofs.Solve.Resemblance
import Depsolve.Proofs.Solve.Runs
import Depsolve.Proofs.Solve.Soundness
import Depsolve.Proofs.Solve.Sources
import Depsolve.Proofs.Solve.Steps
import Depsolve.Proofs.Solve.Termination
import Depsolve.Proofs.Solve.Updates
import Depsolve.Proofs.Source.Direct
import Depsolve.Proofs.Source.Faithful
import Depsolve.Proofs.Source.Journal
import Depsolve.Proofs.Source.Kinds
import Depsolve.Proofs.Source.Mirror
import Depsolve.Proofs.Source.Operations
import Depsolve.Proofs.Source.Pairs
import Depsolve.Proofs.Source.Queries
import Depsolve.Proofs.Text.Stretches
import Depsolve.Proofs.Text.Trimming
import Depsolve.Proofs.Toml.Shape
import Depsolve.Proofs.Universe.Answers
import Depsolve.Proofs.Universe.Declarations
import Depsolve.Proofs.Universe.Listing
import Depsolve.Proofs.Universe.Matching
import Depsolve.Proofs.Universe.Roots
import Depsolve.Proofs.Version.Order
import Depsolve.Semver.Basic
import Depsolve.Semver.ReadError
import Depsolve.Semver.Reader
import Depsolve.Semver.Requirement
import Depsolve.Solve.Candidates
import Depsolve.Solve.Expansion
import Depsolve.Solve.Footprint
import Depsolve.Solve.Nogood
import Depsolve.Solve.PartialSolution
import Depsolve.Solve.Problem
import Depsolve.Solve.Run
import Depsolve.Solve.Search
import Depsolve.Solve.Solution
import Depsolve.Solve.Solver
import Depsolve.Sorted.Map
import Depsolve.Sorted.Set
import Depsolve.Source.Basic
import Depsolve.Source.Cache
import Depsolve.Source.Provider
import Depsolve.Source.Session
import Depsolve.Text.Blank
import Depsolve.Text.Hex
import Depsolve.Text.Printable
import Depsolve.Text.Quoted
import Depsolve.Toml.Quote
import Depsolve.Toml.Reader
import Depsolve.Toml.Scalar
import Depsolve.Toml.Shape
import Depsolve.Toml.Tree
import Depsolve.Toml.Value
import Depsolve.Toml.Writer
import Depsolve.Universe.Basic
import Depsolve.Universe.File
import Depsolve.Version.Basic
import Depsolve.Workspace
import Depsolve.Proofs.Semver.Spelling
import Depsolve.Proofs.Constraint.Naming
import Depsolve.Proofs.Import.Hints
import Depsolve.Proofs.Digest.Inputs
import Depsolve.Proofs.Constraint.Composition
import Depsolve.Proofs.Version.Comparison
import Depsolve.Proofs.Version.Selection
import Depsolve.Proofs.Graph.Calls
import Depsolve.Proofs.Version.Grammar
import Depsolve.Proofs.Graph.Walk
import Depsolve.Proofs.Graph.Cycles
import Depsolve.Proofs.Import.Expectation
import Depsolve.Proofs.Disk.Layout
import Depsolve.Proofs.Disk.Places
import Depsolve.Proofs.Disk.Relock
import Depsolve.Proofs.ImportPath.Segments
import Depsolve.Proofs.Universe.Segments
import Depsolve.Proofs.Digest.Framing
