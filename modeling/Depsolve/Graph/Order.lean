import Depsolve.Graph.Basic

/-!
# Reachability, cycles and dependency order

`reachableFromRoot` holds the projects that the root project leads to. `cycles` groups the projects
that lead to one another. `dependencyOrder` lists the projects as walks are done with them. Whether
there is a cycle is found apart from this order: a project asks for itself, or a walk back from a
project meets another one that no walk has met before.

The walks make a bounded number of steps: a walk pushes each edge of a node once, when it first
meets the node.
-/

namespace Depsolve.SolutionGraph

/-- Adds what can be reached from the nodes in `todo` to what has been seen, in at most so many
steps. -/
def visit (g : SolutionGraph) : Nat → List String → List String → List String
  | 0, _, seen => seen
  | _ + 1, [], seen => seen
  | n + 1, x :: todo, seen =>
    if seen.contains x then g.visit n todo seen
    else g.visit n (g.successors x ++ todo) (x :: seen)

/-- The projects that a project leads to, itself included. -/
def reach (g : SolutionGraph) (root : String) : SortedSet String :=
  .ofList (g.visit (g.edges.length + 2) [root] [])

/-- The projects that the root project leads to. -/
def reachableFromRoot (g : SolutionGraph) : SortedSet String :=
  (g.reach g.root).filter (· ≠ g.root)

/-- The projects that a project leads to and that lead back to it. -/
def companions (g : SolutionGraph) (root : String) : SortedSet String :=
  (g.reach root).filter fun other => (g.reach other).contains root

/-- Whether a project asks for itself. -/
def asksItself (g : SolutionGraph) (root : String) : Bool :=
  (g.successors root).contains root

/-- The group of projects that lead to one another of which a project is the first, if they form a
cycle: a project that is in no larger group forms one if it asks for itself. -/
def cycleFrom? (g : SolutionGraph) (root : String) : Option (List String) :=
  let group := (g.companions root).toList
  if group.head? = some root ∧ (1 < group.length ∨ g.asksItself root) then some group else none

/-- The groups of projects that form cycles, sorted. -/
def cycles (g : SolutionGraph) : List (List String) :=
  (SortedSet.ofList g.roots).toList.filterMap g.cycleFrom?

/-- A depth-first walk. -/
structure Walk where
  /-- The nodes to look at, the next first. -/
  stack : List String
  met : List String
  /-- The nodes that are done with, the latest first. -/
  done : List String

/-- Looks at the node on top of the stack. A node met for the first time stays on the stack below
those it asks for; met again, it is done. -/
def step (g : SolutionGraph) (w : Walk) : Walk :=
  match w.stack with
  | [] => w
  | x :: rest =>
    if w.met.contains x then
      { w with stack := rest, done := if w.done.contains x then w.done else x :: w.done }
    else
      let met := x :: w.met
      let next := (g.successors x).filter fun y => ! met.contains y
      { w with stack := next ++ w.stack, met }

/-- Walks on until nothing is left to look at, in at most so many steps. -/
def walk (g : SolutionGraph) : Nat → Walk → Walk
  | 0, w => w
  | n + 1, w => if w.stack.isEmpty then w else g.walk n (g.step w)

/-- The number of steps that a walk from a node can need. -/
def walkLimit (g : SolutionGraph) : Nat :=
  2 * (g.roots.length + g.edges.length) + 2

/-- The nodes in the order in which walks from all of them, one after the other, are done with
them. -/
def finishOrder (g : SolutionGraph) : List String :=
  let start (w : Walk) (x : String) : Walk :=
    if w.met.contains x then w else g.walk g.walkLimit { w with stack := [x] }
  (g.roots.foldl start ⟨[], [], []⟩).done.reverse

/-- The graph with all its edges turned round. -/
def reversed (g : SolutionGraph) : SolutionGraph :=
  { g with edges := g.edges.map fun e => ⟨e.target, e.source, e.constraint⟩ }

/-- Whether walks back from some nodes, one after the other, meet a node besides the one that they
start at. What earlier walks have seen is left out. -/
def meetsOthers (g : SolutionGraph) : List String → List String → Bool
  | [], _ => false
  | x :: rest, seen =>
    let seen' := g.reversed.visit (g.edges.length + 1) [x] seen
    seen.length + 1 < seen'.length || g.meetsOthers rest seen'

/-- All projects, each after those it asks for, unless there is a cycle. The walks back start at the
nodes that were done last. -/
def dependencyOrder (g : SolutionGraph) : Option (List String) :=
  if g.roots.any g.asksItself || g.meetsOthers g.finishOrder.reverse [] then none
  else some g.finishOrder

end Depsolve.SolutionGraph
