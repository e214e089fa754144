import Depsolve.Solve.Nogood
import Depsolve.Solve.PartialSolution
import Depsolve.Source.Basic

/-!
# Solvers

A solver has a source to ask, a problem to solve and limits to keep. What it does may be stopped, by
a fault or by a limit; the state of the source survives that.

`Universe.limits` are limits that a solver over a universe cannot reach: the import entries bound
how deep an expansion can nest, for each level brings in a package; the projects bound the number of
decisions, and the published states the number of candidates for each.
-/

namespace Depsolve

/-- How far a solver may go. -/
structure Limits where
  steps : Nat
  depth : Nat

/-- Why a run has stopped without a solution. -/
inductive Stop
  /-- Something went wrong, or there is no solution. -/
  | fault (fault : Fault)
  | exhausted
deriving DecidableEq

/-- A computation of a solver over a source with the state `σ`. -/
abbrev Run (σ α : Type) := ExceptT Stop (StateM σ) α

/-- A source to ask, a problem to solve, and how to do it. -/
structure Solver (σ : Type) where
  source : Source σ
  problem : Problem
  options : SolveOptions
  limits : Limits

/-- A question to the source; a fault stops the run. -/
def ask {σ α : Type} (query : Ask σ α) : Run σ α :=
  ExceptT.adapt Stop.fault query

namespace Universe

/-- The number of import entries in all packages of all published states. -/
def importCount (u : Universe) : Nat :=
  (u.projects.values.flatten.flatMap fun s => s.packages.values.flatMap SortedSet.toList).length

/-- The number of roots that can own an import path. -/
def rootCount (u : Universe) : Nat :=
  u.projects.size + u.unreachable.size

/-- The number of published states of the project that has most of them. -/
def snapshotBound (u : Universe) : Nat :=
  u.projects.values.foldl (fun most snapshots => max most snapshots.length) 0

/-- More candidates than a project can have: its published states, a bare revision for each, and a
locked version. -/
def candidateBound (u : Universe) : Nat :=
  2 * u.snapshotBound + 1

/-- Limits that a solver over the universe cannot reach. -/
def limits (u : Universe) : Limits :=
  ⟨Nat.pow (2 * u.candidateBound + 4) (u.rootCount + 1), u.importCount + 1⟩

end Universe

end Depsolve
