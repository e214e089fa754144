import Depsolve.Solve.Solution
import Depsolve.Source.Session

/-!
# Runs

`Solver.run` solves a problem from the first requirement to the solution. `Provider.solve` does so
in a session with a provider, which is released at the end, however the run ends.
-/

namespace Depsolve

/-- The requirements of the project being solved, one for each project that owns some of its
imports. -/
def Solver.baseRequirements {σ : Type} (s : Solver σ) : Run σ (List Requirement) := do
  let owned ← s.ownersOf s.problem.imports.toList
  return (groupByRoot owned).entries.map fun (target, packages) =>
    let terms := s.problem.termsFor s.problem.manifest target
    ⟨none, none, ⟨target, terms.source⟩, terms.constraint, packages, false⟩

/-- Solves the problem. -/
def Solver.run {σ : Type} (s : Solver σ) : Run σ Solution := do
  let base ← s.baseRequirements
  let search ← s.iterate s.limits.steps (.start base)
  orStop (Solution.ofSearch s.problem s.options search)

namespace Provider

/-- The provider for a run that the caller cancels once so many queries have begun; none if the run
is not cancelled. -/
def forRun (p : Provider) (cancelAfter : Option Nat) : Provider :=
  match cancelAfter with
  | some 0 => { p with isCancelled := true, patience := none }
  | other => { p with isCancelled := false, patience := other }

/-- Solves a problem in a session with the provider. -/
def solve (p : Provider) (problem : Problem) (options : SolveOptions) :
    Except Stop Solution × Provider :=
  let solver : Solver Session := ⟨Session.source, problem, options, p.world.limits⟩
  let (result, session) := solver.run.run.run (.start p)
  (result, session.close)

end Provider

end Depsolve
