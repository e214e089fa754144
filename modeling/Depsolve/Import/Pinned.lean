import Depsolve.Preference
import Depsolve.Source.Basic

/-!
# Names for pinned revisions

Another tool may record only the revision that a project is pinned at. `pinnedVersion` finds the
version to lock: a named version at that revision, if there is one.
-/

namespace Depsolve

/-- The version to choose among several at one revision: the lowest that the constraint admits, or
else the first. -/
def pickPinned (constraint : Option Constraint) (candidates : List Bound) : Option Bound :=
  let admitted := candidates.filter fun b => constraint.any (·.admits (.bound b))
  firstMin? (fun a b => Preference.downgrade.compareNamed a.named b.named) admitted <|>
    candidates.head?

/-- The branch of a name among some versions. -/
def listedBranch? (listed : List Bound) (name : String) : Option Named :=
  (listed.map Bound.named).find? fun n =>
    match n with
    | .branch b _ => b = name
    | _ => false

/-- The version to lock for a revision: a listed version at the revision, else the branch that the
constraint asks for, if it is listed, else the revision itself. -/
def versionAt (listed : List Bound) (constraint : Option Constraint) (r : Revision) : Version :=
  let chosen :=
    match listed.filter (·.revision = r) with
    | [only] => some only
    | candidates => pickPinned constraint candidates
  match chosen with
  | some b => .bound b
  | none =>
    match (constraint.bind Constraint.branch?).bind (listedBranch? listed) with
    | some branch => .named branch
    | none => .revision r

/-- Finds the version to lock for a project that is pinned at a revision. -/
def pinnedVersion {σ : Type} (source : Source σ) (p : Project) (constraint : Option Constraint)
    (r : Revision) : Ask σ Version := do
  return versionAt (← source.versions p) constraint r

end Depsolve
