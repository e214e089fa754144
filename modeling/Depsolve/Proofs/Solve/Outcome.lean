import Depsolve.Proofs.Except
import Depsolve.Proofs.Universe.Answers
import Depsolve.Solve.Run

/-!
# Outcomes over a plain universe

`Universe.source` is a universe as a source without memory. A run over it has nothing but its
outcome: a value, or what stopped it. `Run.outcome` is that, and the lemmas of this file take the
outcome of a computation apart along its steps.
-/

namespace Depsolve

variable {α β : Type}

/-- An answer, as a query that changes nothing. -/
def answer (result : Except SourceFault α) : Ask Unit α :=
  match result with
  | .ok a => pure a
  | .error e => throw (.lookup e)

namespace Universe

/-- A universe as a source without memory that is never cancelled. -/
def source (u : Universe) : Source Unit where
  checkpoint := pure ()
  versions p := answer (u.versions p)
  hasRevision p r := answer (u.hasRevision p r)
  rootOf path := answer (u.rootOf path)
  manifestOf p v := answer (u.manifestOf p v)
  packagesOf p v := answer (u.packagesOf p v)
  prefetch _ := pure ()

/-- The solver of a problem over a plain universe. -/
def solver (u : Universe) (problem : Problem) (options : SolveOptions) (limits : Limits) :
    Solver Unit :=
  ⟨u.source, problem, options, limits⟩

end Universe

/-- A fault of the source, as what stops a run. -/
def Stop.ofLookup (e : SourceFault) : Stop :=
  .fault (.lookup e)

namespace Run

/-- How a run over a plain universe ends. -/
def outcome (m : Run Unit α) : Except Stop α :=
  (m.run.run ()).1

@[simp]
theorem outcome_pure (a : α) : (pure a : Run Unit α).outcome = .ok a := rfl

@[simp]
theorem outcome_throw (e : Stop) : (throw e : Run Unit α).outcome = .error e := rfl

@[simp]
theorem outcome_bind (m : Run Unit α) (f : α → Run Unit β) :
    (m >>= f).outcome =
      match m.outcome with
      | .ok a => (f a).outcome
      | .error e => .error e := by
  simp only [outcome, ExceptT.run_bind, StateT.run_bind]
  rcases m.run.run () with ⟨_ | _, u⟩ <;> rfl

theorem outcome_bind_eq_ok_iff {m : Run Unit α} {f : α → Run Unit β} {b : β} :
    (m >>= f).outcome = .ok b ↔ ∃ a, m.outcome = .ok a ∧ (f a).outcome = .ok b := by
  rw [outcome_bind]
  cases m.outcome <;> simp

theorem outcome_bind_eq_error_iff {m : Run Unit α} {f : α → Run Unit β} {e : Stop} :
    (m >>= f).outcome = .error e ↔
      m.outcome = .error e ∨ ∃ a, m.outcome = .ok a ∧ (f a).outcome = .error e := by
  rw [outcome_bind]
  cases m.outcome <;> simp

@[simp]
theorem outcome_ask_answer (result : Except SourceFault α) :
    (ask (answer result) : Run Unit α).outcome = result.mapError Stop.ofLookup := by
  cases result <;> rfl

@[simp]
theorem outcome_orStop (result : Except Fault α) :
    (orStop result : Run Unit α).outcome = result.mapError Stop.fault := by
  cases result <;> rfl

end Run

end Depsolve
