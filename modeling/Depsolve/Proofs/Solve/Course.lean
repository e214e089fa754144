import Depsolve.Proofs.Solve.Runs
import Depsolve.Proofs.Source.Faithful

/-!
# The course of a search

`Provider.searchAt` is the state of the search after so many steps of solving a problem with a
provider. Nothing bounds that number here, so a search that does not end has a state after every
number of steps.

Each of these states a solver over the plain universe visits too, and goes on from it in the same
way (`Provider.searchAt_visits`, `Provider.searchAt_succ`). So what is proved of the steps of that
solver can be said of the course of every search.
-/

namespace Depsolve

/-- The state of a search after so many steps, with that of the source; none if the search has ended
before. -/
def Solver.after {σ : Type} (s : Solver σ) (init : σ) : Nat → Option (Search × σ)
  | 0 =>
    match s.baseRequirements.run.run init with
    | (.ok base, source) => some (.start base, source)
    | (.error _, _) => none
  | n + 1 => (s.after init n).bind fun (search, source) =>
    match (s.step search).run.run source with
    | (.ok (.ongoing next), source) => some (next, source)
    | _ => none

namespace Provider

/-- The solver that solves a problem in a session with the provider. -/
def solver (p : Provider) (problem : Problem) (options : SolveOptions) : Solver Session :=
  ⟨Session.source, problem, options, p.world.limits⟩

/-- The state of the search after so many steps of solving a problem with the provider; none if the
search has ended before. -/
def searchAt (p : Provider) (problem : Problem) (options : SolveOptions) (n : Nat) :
    Option Search :=
  ((p.solver problem options).after (.start p) n).map Prod.fst

variable {p : Provider} {problem : Problem} {options : SolveOptions} {n : Nat}

/-- A search in a session is at a state that the search over the plain universe visits. -/
structure AtVisited (p : Provider) (problem : Problem) (options : SolveOptions) (search : Search)
    (session : Session) : Prop where
  visits : (p.world.solver problem options p.world.limits).Visits search
  pinned : search.Pinned
  serves : session.Serves p.world False

theorem AtVisited.start {base : List Requirement} {session : Session}
    (h : (p.solver problem options).baseRequirements.run.run (.start p) = (.ok base, session)) :
    p.AtVisited problem options (.start base) session := by
  have hmirrors := (Solver.baseRequirements_mirrors (Session.source_mirrors p.world problem False)
    options p.world.limits).mono (P := Same fun _ => True) fun _ _ hab => ⟨hab, trivial⟩
  obtain ⟨hbase, -, hserves⟩ := hmirrors.ok (Session.serves_start rfl False.elim) h
  exact ⟨.start hbase, .start base, hserves⟩

/-- A step in the session is one over the plain universe. -/
theorem AtVisited.step {search next : Search} {session session' : Session}
    (h : p.AtVisited problem options search session)
    (hstep : ((p.solver problem options).step search).run.run session =
      (.ok (.ongoing next), session')) :
    ((p.world.solver problem options p.world.limits).step search).outcome = .ok (.ongoing next) ∧
      p.AtVisited problem options next session' := by
  have hmirrors := Solver.step_mirrors (Session.source_mirrors p.world problem False) options
    p.world.limits h.pinned
  obtain ⟨hnext, hpinned, hserves⟩ := hmirrors.ok h.serves hstep
  exact ⟨hnext, .step h.visits hnext, hpinned, hserves⟩

theorem atVisited_of_after {search : Search} {session : Session}
    (h : (p.solver problem options).after (.start p) n = some (search, session)) :
    p.AtVisited problem options search session := by
  induction n generalizing search session with
  | zero =>
    rw [Solver.after] at h
    split at h
    · rename_i base session' hbase
      obtain ⟨rfl, rfl⟩ := Prod.mk.inj (Option.some.inj h)
      exact .start hbase
    · simp at h
  | succ n ih =>
    rw [Solver.after, Option.bind_eq_some_iff] at h
    obtain ⟨⟨before, session₀⟩, hbefore, h⟩ := h
    dsimp only at h
    split at h
    · rename_i next session' hstep
      obtain ⟨rfl, rfl⟩ := Prod.mk.inj (Option.some.inj h)
      exact ((ih hbefore).step hstep).2
    · simp at h

/-- A search only comes to states that the search over the plain universe visits. -/
theorem searchAt_visits {search : Search} (h : p.searchAt problem options n = some search) :
    (p.world.solver problem options p.world.limits).Visits search := by
  obtain ⟨⟨search', session⟩, hafter, rfl⟩ := Option.map_eq_some_iff.1 h
  exact (atVisited_of_after hafter).visits

theorem searchAt_zero {search : Search} (h : p.searchAt problem options 0 = some search) :
    ∃ base, search = .start base := by
  obtain ⟨⟨search', session⟩, hafter, rfl⟩ := Option.map_eq_some_iff.1 h
  rw [Solver.after] at hafter
  split at hafter
  · rename_i base session' hbase
    obtain ⟨rfl, rfl⟩ := Prod.mk.inj (Option.some.inj hafter)
    exact ⟨base, rfl⟩
  · simp at hafter

/-- A search goes on as the search over the plain universe does. -/
theorem searchAt_succ {next : Search} (h : p.searchAt problem options (n + 1) = some next) :
    ∃ search, p.searchAt problem options n = some search ∧
      ((p.world.solver problem options p.world.limits).step search).outcome =
        .ok (.ongoing next) := by
  obtain ⟨⟨next', session'⟩, hafter, rfl⟩ := Option.map_eq_some_iff.1 h
  rw [Solver.after, Option.bind_eq_some_iff] at hafter
  obtain ⟨⟨search, session⟩, hbefore, hafter⟩ := hafter
  dsimp only at hafter
  split at hafter
  · rename_i hstep
    obtain ⟨rfl, rfl⟩ := Prod.mk.inj (Option.some.inj hafter)
    refine ⟨search, ?_, ((atVisited_of_after hbefore).step hstep).1⟩
    rw [searchAt, hbefore]
    rfl
  · simp at hafter

end Provider

end Depsolve
