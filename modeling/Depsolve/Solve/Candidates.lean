import Depsolve.Preference
import Depsolve.Solve.Solver

/-!
# Candidates

`Solver.candidates` lists the versions that may be chosen for a project, the most wanted first:
those that all requirements accept, in upgrade order, after them bare revisions that a requirement
names, and in front of all the locked version, where one may be preferred.

`Solver.choose` picks the waiting project that has the fewest.
-/

namespace Depsolve

/-- What to decide on next. -/
inductive Choice
  /-- Nothing; every required project has a version. -/
  | complete
  /-- A project, for which there are candidates. -/
  | project (project : Project) (candidates : List Version)
  /-- Nothing; a project that is required has no candidate. -/
  | stuck (root : String) (requirements : List Requirement)

namespace Solver

variable {σ : Type}

/-- The revisions that are asked for by hash, that the listed versions do not have, and that are
there. -/
def bareRevisions (s : Solver σ) (project : Project) (listed : List Version)
    (requirements : List Requirement) : Run σ (SortedSet String) :=
  (requirements.filterMap (·.constraint.revision?)).foldlM
    (fun found r => do
      if listed.any (·.revision? = some r) || found.contains r.text then return found
      else if ← ask (s.source.hasRevision project r) then return found.insert r.text
      else return found)
    .empty

/-- The locked entry of a project, if it may be preferred. -/
def lockedEntry? (s : Solver σ) (project : Project) (requirements : List Requirement) :
    Option LockedProject :=
  if s.options.changeAll || s.options.toChange.contains project.root then none
  else
    (s.problem.lock.bind (·.find? project.root)).filter fun entry =>
      entry.project.location = project.location && admittedBy requirements entry.version

/-- The locked version of a project, if it may be preferred and is still there. A locked name
without a revision stands for the first candidate that means the same. -/
def lockedVersion? (s : Solver σ) (project : Project) (requirements : List Requirement)
    (candidates : List Version) : Run σ (Option Version) :=
  match s.lockedEntry? project requirements with
  | none => return none
  | some entry =>
    match entry.version.revision? with
    | some r => return if ← ask (s.source.hasRevision project r) then some entry.version else none
    | none => return candidates.find? (·.agrees entry.version)

/-- The versions that may be chosen for a project, the most wanted first. -/
def candidates (s : Solver σ) (project : Project) (requirements : List Requirement) :
    Run σ (List Version) := do
  let versions ← ask (s.source.versions project)
  let listed := (Preference.upgrade.sort versions).map Version.bound
  let bare ← s.bareRevisions project listed requirements
  let known := listed ++ bare.toList.map fun text => Version.revision ⟨text⟩
  let viable := known.filter (admittedBy requirements)
  match ← s.lockedVersion? project requirements viable with
  | some v => return v :: viable.filter fun w => ! w.same v
  | none => return viable

/-- Looks for the project with the fewest candidates among those that wait, and the first of
several; `best` is what was found before. The first project without candidates ends the search. -/
def chooseFrom (s : Solver σ) (best : Option (Project × List Version)) :
    List (Project × List Requirement) → Run σ Choice
  | [] =>
    match best with
    | some (project, candidates) => return .project project candidates
    | none => return .complete
  | (project, requirements) :: rest => do
    let candidates ← s.candidates project requirements
    if candidates.isEmpty then return .stuck project.root requirements
    else
      match best with
      | some (p, fewest) =>
        if candidates.length < fewest.length then s.chooseFrom (some (project, candidates)) rest
        else s.chooseFrom (some (p, fewest)) rest
      | none => s.chooseFrom (some (project, candidates)) rest

/-- Picks what to decide on next. -/
def choose (s : Solver σ) (chosen : PartialSolution) : Run σ Choice :=
  s.chooseFrom none chosen.waiting

end Solver

end Depsolve
