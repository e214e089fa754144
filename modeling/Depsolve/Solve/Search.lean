import Depsolve.Solve.Candidates
import Depsolve.Solve.Expansion

/-!
# The search

The search goes from state to state. It either decides what project to choose a version for, or
tries the candidates of the project at hand. A project without candidates left makes the search jump
back to the latest decision that is to blame, which is then tried with its next candidate; if no
decision is to blame there is no solution.

`Solver.step` is one transition. A failed candidate is remembered together with the decisions it
failed under, so that it is not tried again under the same ones.
-/

namespace Depsolve

/-- What a search reports of itself. -/
inductive Event
  /-- A project was picked, with so many candidates. -/
  | select (root : String) (candidates : Nat)
  | accept (root version : String)
  | reject (root version reason : String)
  /-- The search went back from one project to another. -/
  | backjump (source target : String)
deriving DecidableEq

/-- The wording of an event. -/
def Event.message : Event → String
  | .select root candidates => "select " ++ root ++ " (" ++ Nat.repr candidates ++ " candidates)"
  | .accept root version => "accept " ++ root ++ "@" ++ version
  | .reject root version reason => "reject " ++ root ++ "@" ++ version ++ ": " ++ reason
  | .backjump source target => "backjump from " ++ source ++ " to " ++ target

/-- What a search is about to do. -/
inductive Phase
  | deciding
  | trying (frame : Frame)

/-- The state of a search. -/
structure Search where
  chosen : PartialSolution
  phase : Phase
  memo : FailureMemo
  attempts : Nat
  backtracks : Nat
  /-- What happened, the latest first. -/
  events : List Event

/-- Where a step leads to. -/
inductive Progress
  /-- On, to another state. -/
  | ongoing (search : Search)
  /-- To the end; the decisions are a solution. -/
  | complete (search : Search)

namespace Search

/-- The search before the first decision. -/
def start (base : List Requirement) : Search :=
  ⟨⟨base, []⟩, .deciding, .empty, 0, 0, []⟩

/-- The search after an event. -/
def report (s : Search) (e : Event) : Search :=
  { s with events := e :: s.events }

/-- The search that goes on with a project. -/
def tryFrame (s : Search) (frame : Frame) : Search :=
  { s with phase := .trying frame }

/-- Jumps back from a project to the latest decision to blame, which takes over the blame on earlier
ones. With none to blame, there is no solution. -/
def backjump (s : Search) (root : String) (culprits : SortedSet Nat) (conflicts : List Conflict) :
    Except Fault Search :=
  let culprits := culprits.filter (· < s.chosen.size)
  match culprits.max?.bind fun i => (s.chosen.decision? i).map fun d => (i, d) with
  | none => .error (.unsolvable root conflicts)
  | some (i, d) =>
    .ok { (s.report (.backjump root d.root)) with
      chosen := s.chosen.take i
      phase := .trying (d.frame.blame (culprits.filter (· < i)) conflicts)
      backtracks := s.backtracks + 1 }

/-- The search after a version was chosen for the project at hand. -/
def accept (s : Search) (frame : Frame) (version : Version) (added : List Requirement) : Search :=
  { (s.report (.accept frame.project.root version.toText)) with
    chosen := s.chosen.push ⟨frame, version, added⟩
    phase := .deciding }

/-- The search after a version of the project at hand has failed; the failure is remembered with the
versions of the decisions to blame. -/
def reject (s : Search) (frame : Frame) (version : Version) (failure : Failure) : Search :=
  let root := frame.project.root
  let culprits := failure.culprits.filter (· < s.chosen.size)
  let nogood : Nogood :=
    ⟨root, version, packagesOf (s.chosen.requirementsOn root), s.chosen.assignment culprits⟩
  { (s.report (.reject root version.toText failure.conflict.reason)) with
    phase := .trying (frame.blame culprits [failure.conflict])
    memo := s.memo.record nogood }

/-- Whether a version of the project at hand is known to fail under the decisions made, with the
roots of those to blame; and the memo that has counted it. -/
def consult (s : Search) (frame : Frame) (version : Version) :
    Option (List String) × FailureMemo :=
  let root := frame.project.root
  s.memo.consult root version (packagesOf (s.chosen.requirementsOn root)) s.chosen.version?

/-- The search after a version of the project at hand was passed over, as known to fail. -/
def prune (s : Search) (frame : Frame) (roots : List String) : Search :=
  s.tryFrame (frame.blame (.ofList (roots.filterMap s.chosen.index?)) [])

end Search

namespace Problem

/-- The conflict of a requirement that no version of a project satisfies. -/
def unmet (problem : Problem) (chosen : PartialSolution) (root : String) (r : Requirement) :
    Conflict :=
  ⟨problem.dependerLabel chosen r, r.constraint.toText, "no version of " ++ root ++ " satisfies it"⟩

/-- The conflict of a requirement on a project that has no candidate left. -/
def spent (problem : Problem) (chosen : PartialSolution) (root : String) (r : Requirement) :
    Conflict :=
  ⟨problem.dependerLabel chosen r, r.constraint.toText,
    "no remaining version of " ++ root ++ " is acceptable"⟩

/-- Jumps back from a project that has no candidate at all; whoever requires it is to blame. -/
def backjumpStuck (problem : Problem) (search : Search) (root : String)
    (requirements : List Requirement) : Except Fault Search :=
  search.backjump root (culpritsOf requirements)
    (requirements.map (problem.unmet search.chosen root))

/-- Jumps back from a project that has no candidate left. Those because of which candidates failed
are to blame, and those who require it. -/
def backjumpSpent (problem : Problem) (search : Search) (frame : Frame) : Except Fault Search :=
  let root := frame.project.root
  let requirements := (search.chosen.requirementsOn root).filter fun r => ! r.isInternal
  search.backjump root (frame.conflicts.union (culpritsOf requirements))
    (Frame.mergeConflicts frame.failures (requirements.map (problem.spent search.chosen root)))

end Problem

/-- A value, or a fault that stops the run. -/
def orStop {σ α : Type} (result : Except Fault α) : Run σ α :=
  match result with
  | .ok a => return a
  | .error e => throw (.fault e)

namespace Solver

variable {σ : Type}

/-- Asks for the versions of all projects that wait, if that is wanted. -/
def prefetch (s : Solver σ) (chosen : PartialSolution) : Run σ Unit :=
  if s.options.prefetch then
    ExceptT.lift (s.source.prefetch (chosen.waiting.map Prod.fst))
  else return ()

/-- Goes on with the candidates of a project, unless the caller has cancelled the run. -/
def proceed (s : Solver σ) (search : Search) : Run σ Progress := do
  ask s.source.checkpoint
  return .ongoing search

/-- Picks the next project. -/
def decide (s : Solver σ) (search : Search) : Run σ Progress := do
  ask s.source.checkpoint
  s.prefetch search.chosen
  match ← s.choose search.chosen with
  | .complete => return .complete search
  | .project project candidates =>
    let event := .select project.root candidates.length
    s.proceed ((search.report event).tryFrame (.start project candidates))
  | .stuck root requirements =>
    s.proceed (← orStop (s.problem.backjumpStuck search root requirements))

/-- Looks at one candidate of the project at hand. -/
def tryCandidate (s : Solver σ) (search : Search) (frame : Frame) (version : Version) :
    Run σ Search := do
  let (known, memo) := search.consult frame version
  let search := { search with memo, attempts := search.attempts + 1 }
  match known with
  | some roots => return search.prune frame roots
  | none =>
    match ← (s.attempt search.chosen frame version).run with
    | .ok added => return search.accept frame version added
    | .error failure => return search.reject frame version failure

/-- One transition of the search. -/
def step (s : Solver σ) (search : Search) : Run σ Progress :=
  match search.phase with
  | .deciding => s.decide search
  | .trying frame =>
    match frame.candidates with
    | [] => do s.proceed (← orStop (s.problem.backjumpSpent search frame))
    | version :: rest => do
      return .ongoing (← s.tryCandidate search { frame with candidates := rest } version)

/-- Steps on until the decisions are a solution, at most so many times. -/
def iterate (s : Solver σ) : Nat → Search → Run σ Search
  | 0, _ => throw .exhausted
  | n + 1, search => do
    match ← s.step search with
    | .complete search => return search
    | .ongoing search => s.iterate n search

end Solver

end Depsolve
