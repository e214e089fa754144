import Depsolve.Sorted.Map
import Depsolve.Version.Basic

/-!
# Remembered failures

A nogood records that a version of a project, with a set of packages required of it, failed
because of the versions chosen for other projects. Whenever those are chosen again the version
need not be tried.
-/

namespace Depsolve

/-- The versions chosen for some projects. -/
abbrev Assignment := SortedMap String Version

/-- A candidate that failed, and the versions it failed under. -/
structure Nogood where
  project : String
  version : Version
  packages : SortedSet String
  assignment : Assignment

namespace Nogood

/-- The texts that tell assignments apart: root, version and revision of each entry. -/
def fields (assignment : Assignment) : List String :=
  assignment.entries.flatMap fun (root, v) =>
    [root, v.toText, (v.revision?.map Revision.text).getD ""]

/-- Whether a nogood is about a version of a project with some packages. -/
def concerns (project : String) (version : Version) (packages : SortedSet String) (n : Nogood) :
    Bool :=
  n.project = project && n.version.same version && n.packages = packages

/-- Whether the versions that a nogood names are chosen. -/
def holds (selected : String → Option Version) (n : Nogood) : Bool :=
  n.assignment.entries.all fun (root, v) => (selected root).any (·.same v)

end Nogood

/-- The failures of a run. -/
structure FailureMemo where
  /-- The failures in the order in which they were recorded. -/
  nogoods : List Nogood
  pruned : Nat

namespace FailureMemo

/-- The memo without failures. -/
def empty : FailureMemo := ⟨[], 0⟩

/-- Records a failure, unless it is known. -/
def record (memo : FailureMemo) (n : Nogood) : FailureMemo :=
  let known := memo.nogoods.any fun m =>
    m.concerns n.project n.version n.packages && Nogood.fields m.assignment =
      Nogood.fields n.assignment
  if known then memo else { memo with nogoods := memo.nogoods ++ [n] }

/-- The first failure of a version of a project, with some packages, that the chosen versions
repeat. -/
def find? (memo : FailureMemo) (project : String) (version : Version) (packages : SortedSet String)
    (selected : String → Option Version) : Option Nogood :=
  memo.nogoods.find? fun n => n.concerns project version packages && n.holds selected

/-- The roots that the first repeated failure names, and the memo that has counted it. -/
def consult (memo : FailureMemo) (project : String) (version : Version)
    (packages : SortedSet String) (selected : String → Option Version) :
    Option (List String) × FailureMemo :=
  match memo.find? project version packages selected with
  | some n => (some n.assignment.keys, { memo with pruned := memo.pruned + 1 })
  | none => (none, memo)

end FailureMemo

end Depsolve
