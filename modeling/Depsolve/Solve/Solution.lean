import Depsolve.Digest.Signature
import Depsolve.Graph.Basic
import Depsolve.Lock.Basic
import Depsolve.Solve.Search

/-!
# Solutions

A solution is what a finished search has found: a lock with a version and the needed packages for
every project, and the graph of who asked for what.
-/

namespace Depsolve

/-- The outcome of a successful search. -/
structure Solution where
  lock : Lock
  graph : SolutionGraph
  attempts : Nat
  backtracks : Nat
  /-- What happened, if that was to be told. -/
  trace : List Event

/-- The name under which the solver signs locks. -/
def solverName : String := "tether-backjump"

/-- The version under which the solver signs locks. -/
def solverVersion : Nat := 1

namespace PartialSolution

/-- The lock entry of a decision. -/
def lockedProject (p : PartialSolution) (d : Decision) : LockedProject :=
  let packages := (packagesOf (p.requirementsOn d.root)).toList
  ⟨d.frame.project, d.version, .ofList (packages.filterMap (ImportPath.relative? d.root))⟩

/-- The root of whoever made a requirement. -/
def dependerRoot (p : PartialSolution) (root : String) (r : Requirement) : String :=
  ((r.depender.bind p.decision?).map Decision.root).getD root

/-- The graph with the edge of a requirement; an edge to a project that is not there is left out. -/
def addEdge (p : PartialSolution) (g : SolutionGraph) (r : Requirement) : SolutionGraph :=
  match g.addDependency (p.dependerRoot g.root r) r.project.root r.constraint with
  | .ok g => g
  | .error _ => g

/-- The graph of a partial solution. -/
def graph (p : PartialSolution) (root : String) : SolutionGraph :=
  let nodes := p.decisions.foldl (fun g d => g.addProject d.root d.version) (.new root)
  (p.requirements.filter fun r => ! r.isInternal).foldl p.addEdge nodes

end PartialSolution

/-- How a lock for the problem was found. -/
def Problem.solveMeta (problem : Problem) : SolveMeta :=
  ⟨inputsDigest problem.manifest problem.imports, solverName, solverVersion⟩

/-- The solution that a finished search has found. -/
def Solution.ofSearch (problem : Problem) (options : SolveOptions) (search : Search) :
    Except Fault Solution := do
  let chosen := search.chosen
  let lock ← Lock.ofProjects (chosen.decisions.map chosen.lockedProject)
  return {
    lock := { lock with solveMeta := some problem.solveMeta }
    graph := chosen.graph problem.root
    attempts := search.attempts
    backtracks := search.backtracks
    trace := if options.trace then search.events.reverse else [] }

end Depsolve
