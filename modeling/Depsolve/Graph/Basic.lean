import Depsolve.Constraint.Basic
import Depsolve.Sorted.Set

/-!
# Solution graphs

The nodes of a solution graph are the root project and the selected projects; an edge goes from a
depender to a project it asks for and carries the constraint. Cycles are legal.
-/

namespace Depsolve

/-- A project in a solution graph; the root project has no version. -/
structure GraphNode where
  root : String
  version : Option Version
deriving DecidableEq

/-- What one project asks of another. -/
structure GraphEdge where
  source : String
  target : String
  constraint : Constraint
deriving DecidableEq

/-- A solution graph. -/
structure SolutionGraph where
  root : String
  /-- The other projects, in the order in which they were added. -/
  projects : List GraphNode
  /-- The edges, in the order in which they were added. -/
  edges : List GraphEdge

namespace SolutionGraph

/-- The graph of a root project alone. -/
def new (root : String) : SolutionGraph := ⟨root, [], []⟩

/-- All nodes, the root project first. -/
def nodes (g : SolutionGraph) : List GraphNode :=
  ⟨g.root, none⟩ :: g.projects

/-- The roots of all nodes. -/
def roots (g : SolutionGraph) : List String :=
  g.nodes.map GraphNode.root

/-- Adds a project; one that is there stays as it is. -/
def addProject (g : SolutionGraph) (root : String) (version : Version) : SolutionGraph :=
  if g.roots.contains root then g
  else { g with projects := g.projects ++ [⟨root, some version⟩] }

/-- The place of a project in the order in which projects were added. -/
def index (g : SolutionGraph) (root : String) : Nat :=
  g.roots.idxOf root

/-- Adds an edge, unless an equal one is there; tells which of its ends is missing from the
graph. -/
def addDependency (g : SolutionGraph) (source target : String) (constraint : Constraint) :
    Except String SolutionGraph :=
  if ! g.roots.contains source then .error source
  else if ! g.roots.contains target then .error target
  else
    let edge : GraphEdge := ⟨source, target, constraint⟩
    if g.edges.contains edge then .ok g else .ok { g with edges := g.edges ++ [edge] }

/-- The node of a project. -/
def find? (g : SolutionGraph) (root : String) : Option GraphNode :=
  g.nodes.find? (·.root = root)

/-- The targets of the edges of a project, in the order in which the edges were added. -/
def successors (g : SolutionGraph) (root : String) : List String :=
  (g.edges.filter (·.source = root)).map GraphEdge.target

/-- The projects that ask for a project, sorted. -/
def dependersOf (g : SolutionGraph) (root : String) : SortedSet String :=
  .ofList ((g.edges.filter (·.target = root)).map GraphEdge.source)

/-- The projects that a project asks for, sorted. -/
def dependenciesOf (g : SolutionGraph) (root : String) : SortedSet String :=
  .ofList (g.successors root)

end SolutionGraph

end Depsolve
