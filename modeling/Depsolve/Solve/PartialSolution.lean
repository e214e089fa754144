import Depsolve.Solve.Problem

/-!
# Partial solutions

A partial solution is a stack of decisions, each of which has chosen a version for a project and
holds the requirements that came with the choice. Decisions are counted from the bottom. Undoing a
decision takes away exactly the requirements that it brought.
-/

namespace Depsolve

/-- A need for some packages of a project. -/
structure Requirement where
  /-- The decision that brought the requirement; none for those of the project being solved. -/
  owner : Option Nat
  /-- The decision on the project that imports the packages; none for the project being solved. -/
  depender : Option Nat
  project : Project
  constraint : Constraint
  /-- The packages, by full import path. -/
  packages : SortedSet String
  /-- Whether the project needs the packages only for itself. -/
  isInternal : Bool
deriving DecidableEq

/-- The decisions that a requirement goes back to. -/
def Requirement.culprits (r : Requirement) : SortedSet Nat :=
  .ofList (r.owner.toList ++ r.depender.toList)

/-- The decisions that some requirements go back to. -/
def culpritsOf (requirements : List Requirement) : SortedSet Nat :=
  requirements.foldl (fun found r => found.union r.culprits) .empty

/-- Whether all requirements accept a version. -/
def admittedBy (requirements : List Requirement) (v : Version) : Bool :=
  requirements.all fun r => r.constraint.admits v

/-- A project for which a version is being chosen. -/
structure Frame where
  project : Project
  /-- The versions that were not tried yet, the most wanted first. -/
  candidates : List Version
  /-- The earlier decisions because of which versions failed. -/
  conflicts : SortedSet Nat
  /-- What went wrong, in the order in which it came up. -/
  failures : List Conflict

namespace Frame

/-- The frame of a project for which no version was tried. -/
def start (project : Project) (candidates : List Version) : Frame :=
  ⟨project, candidates, .empty, []⟩

/-- The conflicts with those that were not there. -/
def mergeConflicts (known new : List Conflict) : List Conflict :=
  new.foldl (fun known c => if known.contains c then known else known ++ [c]) known

/-- The frame with more decisions to blame and more that went wrong. -/
def blame (f : Frame) (culprits : SortedSet Nat) (failures : List Conflict) : Frame :=
  { f with
    conflicts := f.conflicts.union culprits
    failures := mergeConflicts f.failures failures }

end Frame

/-- A choice of a version for a project. -/
structure Decision where
  /-- The project and what else could be chosen for it. -/
  frame : Frame
  version : Version
  added : List Requirement

namespace Decision

/-- The root of the project. -/
def root (d : Decision) : String :=
  d.frame.project.root

/-- The project at its version, in messages. -/
def label (d : Decision) : String :=
  d.root ++ "@" ++ d.version.toText

end Decision

/-- The decisions made so far, and the requirements of the project being solved. -/
structure PartialSolution where
  base : List Requirement
  /-- The decisions, the first one at the front. -/
  decisions : List Decision

namespace PartialSolution

/-- The number of decisions. -/
def size (p : PartialSolution) : Nat :=
  p.decisions.length

/-- The partial solution with one more decision. -/
def push (p : PartialSolution) (d : Decision) : PartialSolution :=
  { p with decisions := p.decisions ++ [d] }

/-- The partial solution with only so many decisions. -/
def take (p : PartialSolution) (n : Nat) : PartialSolution :=
  { p with decisions := p.decisions.take n }

/-- The decision of a number. -/
def decision? (p : PartialSolution) (i : Nat) : Option Decision :=
  p.decisions[i]?

/-- The number of the decision on a project root. -/
def index? (p : PartialSolution) (root : String) : Option Nat :=
  p.decisions.findIdx? (·.root = root)

/-- The decision on a project root. -/
def find? (p : PartialSolution) (root : String) : Option Decision :=
  p.decisions.find? (·.root = root)

/-- The version chosen for a project root. -/
def version? (p : PartialSolution) (root : String) : Option Version :=
  (p.find? root).map Decision.version

/-- All requirements in force, in the order in which they came. -/
def requirements (p : PartialSolution) : List Requirement :=
  p.base ++ p.decisions.flatMap Decision.added

/-- The requirements in force on a project root. -/
def requirementsOn (p : PartialSolution) (root : String) : List Requirement :=
  p.requirements.filter (·.project.root = root)

/-- The roots that are required but for which nothing was decided, sorted. -/
def waitingRoots (p : PartialSolution) : SortedSet String :=
  .ofList ((p.requirements.map (·.project.root)).filter fun root => (p.index? root).isNone)

/-- The projects that are required but for which nothing was decided, sorted by root, each with the
requirements on it. A project is fetched from where the first requirement says. -/
def waiting (p : PartialSolution) : List (Project × List Requirement) :=
  p.waitingRoots.toList.filterMap fun root =>
    let requirements := p.requirementsOn root
    requirements.head?.map fun r => (r.project, requirements)

/-- The versions of some decisions. -/
def assignment (p : PartialSolution) (decisions : SortedSet Nat) : SortedMap String Version :=
  .ofList ((decisions.toList.filterMap p.decision?).map fun d => (d.root, d.version))

end PartialSolution

/-- The packages that some requirements ask for. -/
def packagesOf (requirements : List Requirement) : SortedSet String :=
  requirements.foldl (fun found r => found.union r.packages) .empty

/-- The name of whoever made a requirement: the project being solved, or a project at its
version. -/
def Problem.dependerLabel (problem : Problem) (p : PartialSolution) (r : Requirement) : String :=
  match r.depender.bind p.decision? with
  | some d => d.label
  | none => problem.root

end Depsolve
