import Mathlib.Data.List.Nodup
import Depsolve.Proofs.Lock.Projects
import Depsolve.Proofs.Solve.Steps

/-!
# Runs

A run finds the first requirements, steps on until the search is over, and locks its decisions.
That is said here of any step function (`Solver.runBy`), since the solver is compared with a plain
search later on. `Solver.VisitsBy` is the states on the way, over which properties of runs are
proved by induction.
-/

namespace Depsolve

variable {u : Universe} {problem : Problem} {options : SolveOptions} {limits : Limits}

/-! ## Solutions -/

/-- A solution is put together from the lock of the decisions and their graph. -/
theorem Solution.ofSearch_eq {search : Search} {solution : Solution}
    (h : Solution.ofSearch problem options search = .ok solution) :
    ∃ lock, Lock.ofProjects (search.chosen.decisions.map search.chosen.lockedProject) = .ok lock ∧
      solution = {
        lock := { lock with solveMeta := some problem.solveMeta }
        graph := search.chosen.graph problem.root
        attempts := search.attempts
        backtracks := search.backtracks
        trace := if options.trace then search.events.reverse else [] } := by
  unfold ofSearch at h
  simp only at h
  cases hl : Lock.ofProjects (search.chosen.decisions.map search.chosen.lockedProject) with
  | error e => simp [hl, bind, Except.bind] at h
  | ok lock =>
    simp only [hl, bind, Except.bind, pure, Except.pure, Except.ok.injEq] at h
    exact ⟨lock, rfl, h.symm⟩

theorem Solution.ofSearch_ok {search : Search} {solution : Solution}
    (h : Solution.ofSearch problem options search = .ok solution) :
    ∃ lock, Lock.ofProjects (search.chosen.decisions.map search.chosen.lockedProject) = .ok lock ∧
      solution.lock = { lock with solveMeta := some problem.solveMeta } ∧
        solution.backtracks = search.backtracks := by
  obtain ⟨lock, hlock, rfl⟩ := ofSearch_eq h
  exact ⟨lock, hlock, rfl, rfl⟩

theorem Solution.ofSearch_graph {search : Search} {solution : Solution}
    (h : Solution.ofSearch problem options search = .ok solution) :
    solution.graph = search.chosen.graph problem.root := by
  obtain ⟨lock, -, rfl⟩ := ofSearch_eq h
  rfl

theorem Solution.exists_ofSearch {search : Search} {lock : Lock}
    (h : Lock.ofProjects (search.chosen.decisions.map search.chosen.lockedProject) = .ok lock) :
    ∃ solution, Solution.ofSearch problem options search = .ok solution := by
  unfold ofSearch
  simp only [h]
  exact ⟨_, rfl⟩

/-! ## Stepping to the end -/

namespace Solver

def searchBy {σ : Type} (s : Solver σ) (step : Search → Run σ Progress) : Run σ Search := do
  let base ← s.baseRequirements
  iterateBy step s.limits.steps (.start base)

def runBy {σ : Type} (s : Solver σ) (step : Search → Run σ Progress) : Run σ Solution := do
  let search ← s.searchBy step
  orStop (Solution.ofSearch s.problem s.options search)

theorem run_eq_runBy {σ : Type} (s : Solver σ) : s.run = s.runBy s.step := by
  unfold run runBy searchBy
  simp only [iterate_eq_iterateBy, bind_assoc]

section RunBy

variable {step : Search → Run Unit Progress}

theorem runBy_outcome {search : Search}
    (h : ((u.solver problem options limits).searchBy step).outcome = .ok search) :
    ((u.solver problem options limits).runBy step).outcome =
      (Solution.ofSearch problem options search).mapError Stop.fault := by
  rw [runBy, Run.outcome_bind, h]
  exact Run.outcome_orStop _

/-- A run succeeds if its search ends with decisions on distinct projects. -/
theorem exists_runBy_ok {search : Search}
    (h : ((u.solver problem options limits).searchBy step).outcome = .ok search)
    (hdistinct : (search.chosen.decisions.map Decision.root).Nodup) :
    ∃ solution, ((u.solver problem options limits).runBy step).outcome = .ok solution := by
  have hroots : ((search.chosen.decisions.map search.chosen.lockedProject).map
      (·.project.root)).Nodup := by
    rw [List.map_map]
    exact hdistinct
  obtain ⟨lock, hlock⟩ := Lock.exists_ofProjects hroots
  obtain ⟨solution, hsol⟩ :
      ∃ solution, Solution.ofSearch problem options search = .ok solution :=
    Solution.exists_ofSearch hlock
  exact ⟨solution, by rw [runBy_outcome h, hsol]; rfl⟩

/-- A run that succeeds locks what its search has decided. -/
theorem exists_searchBy_of_runBy_ok {solution : Solution}
    (h : ((u.solver problem options limits).runBy step).outcome = .ok solution) :
    ∃ search, ((u.solver problem options limits).searchBy step).outcome = .ok search ∧
      Solution.ofSearch problem options search = .ok solution := by
  have hrun := h
  rw [runBy, Run.outcome_bind_eq_ok_iff] at hrun
  obtain ⟨search, hsearch, -⟩ := hrun
  rw [runBy_outcome hsearch] at h
  refine ⟨search, hsearch, ?_⟩
  cases hs : Solution.ofSearch problem options search with
  | error e => simp [hs] at h
  | ok s => simpa [hs] using h

end RunBy

/-! ## The states on the way -/

/-- The states that a search goes through with some step function. -/
inductive VisitsBy (s : Solver Unit) (step : Search → Run Unit Progress) : Search → Prop
  | start {base : List Requirement} : s.baseRequirements.outcome = .ok base →
      VisitsBy s step (.start base)
  | step {search next : Search} : VisitsBy s step search →
      (step search).outcome = .ok (.ongoing next) → VisitsBy s step next

/-- The states that a solver goes through. -/
abbrev Visits (s : Solver Unit) : Search → Prop :=
  s.VisitsBy s.step

/-- With some step function, a search goes on as a search may, and is over when no project waits. -/
structure Walks (s : Solver Unit) (step : Search → Run Unit Progress) : Prop where
  moves : ∀ {a b}, (step a).outcome = .ok (.ongoing b) → s.Moves a b
  complete : ∀ {a b}, (step a).outcome = .ok (.complete b) → b = a ∧ a.chosen.waiting = []

theorem walks_step :
    (u.solver problem options limits).Walks (u.solver problem options limits).step :=
  ⟨fun {a _} h => (h ▸ steps u problem options limits a).moves rfl,
    fun {a _} h => (h ▸ steps u problem options limits a).complete_inv rfl⟩

section Walks

variable {step : Search → Run Unit Progress} {search : Search}

theorem VisitsBy.grounded {s : Solver Unit} (hwalks : s.Walks step) (h : s.VisitsBy step search) :
    s.Grounded search := by
  induction h with
  | start hbase => exact .start hbase
  | step _ hstep ih => exact ih.moves (hwalks.moves hstep)

theorem Visits.grounded (h : (u.solver problem options limits).Visits search) :
    (u.solver problem options limits).Grounded search :=
  VisitsBy.grounded walks_step h

/-- A search that ends has visited its solution. -/
theorem searchBy_ok {s : Solver Unit} (hwalks : s.Walks step)
    (h : (s.searchBy step).outcome = .ok search) :
    s.VisitsBy step search ∧ search.chosen.waiting = [] := by
  rw [searchBy, Run.outcome_bind_eq_ok_iff] at h
  obtain ⟨base, hbase, h⟩ := h
  obtain ⟨last, hlast, hcomplete⟩ := iterateBy_ok (fun _ _ => VisitsBy.step) (.start hbase) h
  obtain ⟨rfl, hwaiting⟩ := hwalks.complete hcomplete
  exact ⟨hlast, hwaiting⟩

/-- A run that succeeds locks the decisions of a search that it has visited. -/
theorem runBy_ok (hwalks : (u.solver problem options limits).Walks step) {solution : Solution}
    (h : ((u.solver problem options limits).runBy step).outcome = .ok solution) :
    ∃ search, (u.solver problem options limits).VisitsBy step search ∧ search.chosen.waiting = [] ∧
      Solution.ofSearch problem options search = .ok solution := by
  obtain ⟨search, hsearch, hsol⟩ := exists_searchBy_of_runBy_ok h
  obtain ⟨hvisits, hwaiting⟩ := searchBy_ok hwalks hsearch
  exact ⟨search, hvisits, hwaiting, hsol⟩

end Walks

theorem run_ok {solution : Solution}
    (h : (u.solver problem options limits).run.outcome = .ok solution) :
    ∃ search, (u.solver problem options limits).Visits search ∧ search.chosen.waiting = [] ∧
      Solution.ofSearch problem options search = .ok solution := by
  rw [run_eq_runBy] at h
  exact runBy_ok walks_step h

end Solver

end Depsolve
