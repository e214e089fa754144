import Depsolve.Fault
import Depsolve.Project
import Depsolve.Sorted.Set

/-!
# Locks

A lock records the version chosen for every project of a solution and the packages needed of it.
`Lock.ofProjects` sorts the entries and refuses two of one root.
-/

namespace Depsolve

/-- The version chosen for one project. -/
structure LockedProject where
  project : Project
  version : Version
  /-- The packages needed, relative to the root. -/
  packages : SortedSet String
deriving DecidableEq

/-- How a lock was found. -/
structure SolveMeta where
  inputsDigest : String
  solverName : String
  solverVersion : Nat
deriving DecidableEq

/-- The versions chosen for all projects of a solution. -/
structure Lock where
  projects : List LockedProject
  solveMeta : Option SolveMeta
deriving DecidableEq

/-- Equality up to the flags of branches. -/
def LockedProject.same (a b : LockedProject) : Bool :=
  a.project = b.project && a.version.same b.version && a.packages = b.packages

namespace Lock

/-- The first root that stands a second time when the list is read from the front. -/
def repeated? (seen : List String) : List String → Option String
  | [] => none
  | root :: rest => if seen.contains root then some root else repeated? (root :: seen) rest

/-- Checks that no root has two entries. -/
def validate (lock : Lock) : Except Fault Unit :=
  match repeated? [] (lock.projects.map (·.project.root)) with
  | some root => .error (.lock root "project is locked more than once")
  | none => .ok ()

/-- The entries by root, those of one root in the order in which they stood. -/
def sortByRoot (projects : List LockedProject) : List LockedProject :=
  projects.mergeSort fun a b => ! decide (b.project.root < a.project.root)

/-- The lock of some entries, sorted by root. -/
def ofProjects (projects : List LockedProject) : Except Fault Lock := do
  let lock : Lock := ⟨sortByRoot projects, none⟩
  lock.validate
  return lock

/-- The entry of a root. -/
def find? (lock : Lock) (root : String) : Option LockedProject :=
  lock.projects.find? (·.project.root = root)

/-- Whether a root has an entry. -/
def contains (lock : Lock) (root : String) : Bool :=
  lock.projects.any (·.project.root = root)

/-- The same entries in the same order, up to the flags of branches. -/
def sameProjects (a b : Lock) : Bool :=
  a.projects.length = b.projects.length &&
    (a.projects.zip b.projects).all fun (p, q) => p.same q

/-- Equality up to the flags of branches. -/
def same (a b : Lock) : Bool :=
  a.sameProjects b && a.solveMeta = b.solveMeta

end Lock

end Depsolve
