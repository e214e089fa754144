import Depsolve.Solve.Footprint
import Depsolve.Solve.Solver

/-!
# Expansions

Choosing a version of a project brings in the packages that are required of it and everything that
these import. `Solver.expand` finds the requirements that come with the choice, or the reason why it
does not go with the decisions made so far.

Packages required of a project that is decided on already are brought in at once, from the version
chosen for it; packages of other projects are only noted as requirements.
-/

namespace Depsolve

/-- Why a version could not be chosen. -/
structure Failure where
  /-- The decisions it does not go with. -/
  culprits : SortedSet Nat
  conflict : Conflict
deriving DecidableEq

/-- A step of an attempt to choose a version; a failure ends the attempt, not the run. -/
abbrev Attempt (σ α : Type) := ExceptT Failure (Run σ) α

/-- A question to the source during an attempt. -/
def inquire {σ α : Type} (query : Run σ α) : Attempt σ α :=
  ExceptT.lift query

/-- A project at the version that a decision has chosen for it. -/
structure Selected where
  index : Nat
  project : Project
  version : Version

/-- The project at its version, in messages. -/
def Selected.label (s : Selected) : String :=
  s.project.root ++ "@" ++ s.version.toText

/-- The project that was decided on, with its version. -/
def PartialSolution.selected? (p : PartialSolution) (root : String) : Option Selected := do
  let index ← p.index? root
  let d ← p.decision? index
  return ⟨index, d.frame.project, d.version⟩

/-- The imports under the roots of the projects that own them. -/
def groupByRoot (owned : List (String × String)) : SortedMap String (SortedSet String) :=
  owned.foldl
    (fun groups (root, path) => groups.insert root (((groups.get? root).getD .empty).insert path))
    .empty

/-- An attempt to choose a version: the decisions, that version at the end, and the requirements
that it has brought so far. -/
structure Trial where
  chosen : PartialSolution
  pending : List Requirement

namespace Trial

/-- The number of the decision that is on trial. -/
def owner (t : Trial) : Nat :=
  t.chosen.size - 1

/-- The trial with one more requirement. -/
def require (t : Trial) (r : Requirement) : Trial :=
  { t with pending := t.pending ++ [r] }

/-- The requirements on a project root. -/
def requirementsOn (t : Trial) (root : String) : List Requirement :=
  t.chosen.requirementsOn root ++ t.pending.filter (·.project.root = root)

/-- The packages that are required of a project root. -/
def packagesOf (t : Trial) (root : String) : SortedSet String :=
  Depsolve.packagesOf (t.requirementsOn root)

/-- The failure of a version that does not have a package; those who need the package are to
blame. -/
def missingPackage (t : Trial) (site : Selected) (package : String) : Failure :=
  let askers := (t.requirementsOn site.project.root).filter (·.packages.contains package)
  ⟨(culpritsOf askers).insert site.index,
    ⟨site.label, package, "package does not exist in this version"⟩⟩

/-- The requirement that a project has on itself. -/
def internal (t : Trial) (site : Selected) (packages : SortedSet String) : Requirement :=
  ⟨some t.owner, some site.index, site.project, .any, packages, true⟩

/-- The requirement that a project has on another. -/
def external (t : Trial) (site : Selected) (target : String) (terms : Terms)
    (packages : SortedSet String) : Requirement :=
  ⟨some t.owner, some site.index, ⟨target, terms.source⟩, terms.constraint, packages, false⟩

end Trial

/-- The conflict of a depender that wants a project from another place. -/
def locationConflict (site : Selected) (r : Requirement) (reason : String) : Conflict :=
  ⟨site.label, r.project.root ++ " from " ++ r.project.location, reason⟩

/-- The conflict of a depender that does not accept the selected version. -/
def constraintConflict (site : Selected) (r : Requirement) (selected : Selected) : Conflict :=
  let fault : Fault :=
    .conflict r.project.root site.label r.constraint.toText selected.version.toText
  ⟨site.label, r.project.root ++ " " ++ r.constraint.toText, fault.message⟩

/-- Why a requirement does not go with the version selected for its project. -/
def selectedConflict? (site : Selected) (r : Requirement) (selected : Selected) : Option Conflict :=
  if selected.project.location ≠ r.project.location then
    some (locationConflict site r
      (r.project.root ++ " was selected from " ++ selected.project.location))
  else if ! r.constraint.admits selected.version then some (constraintConflict site r selected)
  else none

/-- Why a requirement does not go with others on a project that is not decided on: they fetch the
project from another place. -/
def waitingFailure? (problem : Problem) (t : Trial) (site : Selected) (r : Requirement) :
    Option Failure :=
  let others := t.requirementsOn r.project.root
  (others.find? (·.project.location ≠ r.project.location)).map fun other =>
    let reason :=
      problem.dependerLabel t.chosen other ++ " requires it from " ++ other.project.location
    ⟨other.culprits.union r.culprits, locationConflict site r reason⟩

namespace Solver

variable {σ : Type}

/-- The owners of import paths, asked for in order. -/
def ownersOf (s : Solver σ) (paths : List String) : Run σ (List (String × String)) :=
  paths.mapM fun path => return (← ask (s.source.rootOf path), path)

/-- Adds what a project requires of another to the trial. Packages that are new to a project that is
decided on are handed to `expand`. -/
def require (s : Solver σ)
    (expand : Selected → SortedSet String → SortedSet String → Trial → Attempt σ Trial)
    (site : Selected) (r : Requirement) (t : Trial) : Attempt σ Trial :=
  match t.chosen.selected? r.project.root with
  | none =>
    match waitingFailure? s.problem t site r with
    | some failure => throw failure
    | none => return t.require r
  | some selected =>
    let culprits := r.culprits.insert selected.index
    match selectedConflict? site r selected with
    | some conflict => throw ⟨culprits, conflict⟩
    | none =>
      let known := t.packagesOf r.project.root
      let new := r.packages.diff known
      let t := t.require r
      if new.isEmpty then return t
      else
        tryCatch (expand selected new known t) fun failure =>
          throw { failure with culprits := failure.culprits.union culprits }

/-- Brings packages of a project at a version into the trial, with everything that they import. The
packages in `known` were brought in before. What this brings in of other projects is handed to
`expand`. -/
def expandBy (s : Solver σ)
    (expand : Selected → SortedSet String → SortedSet String → Trial → Attempt σ Trial)
    (site : Selected) (packages known : SortedSet String) (t : Trial) : Attempt σ Trial := do
  let root := site.project.root
  let tree ← inquire (ask (s.source.packagesOf site.project site.version))
  let manifest ← inquire (ask (s.source.manifestOf site.project site.version))
  match tree.footprint? (s.problem.place root) packages known with
  | .error package => throw (t.missingPackage site package)
  | .ok footprint =>
    let added := footprint.packages.diff known
    let t := if added.isEmpty then t else t.require (t.internal site added)
    let owned ← inquire (s.ownersOf footprint.external.toList)
    let others := owned.filter fun (target, _) => target ≠ s.problem.root ∧ target ≠ root
    (groupByRoot others).entries.foldlM
      (fun t (target, packages) =>
        let r := t.external site target (s.problem.termsFor manifest target) packages
        s.require expand site r t)
      t

/-- Brings packages into the trial, with expansions that nest at most so deep. -/
def expand (s : Solver σ) :
    Nat → Selected → SortedSet String → SortedSet String → Trial → Attempt σ Trial
  | 0, _, _, _, _ => inquire (throw .exhausted)
  | depth + 1, site, packages, known, t => s.expandBy (s.expand depth) site packages known t

/-- Tries a version as the next decision. Gives the requirements that come with it. -/
def attempt (s : Solver σ) (chosen : PartialSolution) (frame : Frame) (version : Version) :
    Attempt σ (List Requirement) := do
  let site : Selected := ⟨chosen.size, frame.project, version⟩
  let t : Trial := ⟨chosen.push ⟨frame, version, []⟩, []⟩
  let required := t.packagesOf frame.project.root
  return (← s.expand s.limits.depth site required .empty t).pending

end Solver

end Depsolve
