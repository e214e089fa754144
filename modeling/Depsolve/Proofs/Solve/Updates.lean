import Depsolve.Proofs.Solve.Resemblance

/-!
# Updates are removals from the lock

A solver looks into the earlier lock for one thing only: the entry of a project that it may prefer
(`Solver.lockedEntry?`). To set projects free for an update is therefore the same as to remove them
from the lock, and to set all of them free the same as to have no lock (`Provider.solve_updates`).
It is the whole run that is the same, with the queries that it makes.
-/

namespace Depsolve

/-- The lock without the entries of some roots. -/
def Lock.without (lock : Lock) (roots : SortedSet String) : Lock :=
  { lock with projects := lock.projects.filter fun entry => ! roots.contains entry.project.root }

theorem Lock.find?_without (lock : Lock) (roots : SortedSet String) (root : String) :
    (lock.without roots).find? root = if roots.contains root then none else lock.find? root := by
  unfold without find?
  simp only [List.find?_filter]
  split
  · rename_i hroot
    refine List.find?_eq_none.2 fun entry _ hentry => ?_
    simp only [Bool.not_eq_true', decide_eq_true_eq] at hentry
    rw [hentry.2, hroot] at hentry
    exact Bool.noConfusion hentry.1
  · rename_i hroot
    congr 1
    funext entry
    by_cases hentry : entry.project.root = root
    · simp [hentry, hroot]
    · simp [hentry]

namespace Solver

variable {σ : Type} {s : Solver σ}

/-- A solver with another lock and other options has the same run, if these let it prefer
the same entries. -/
theorem run_eq_of_lockedEntry? (lock : Option Lock) (options : SolveOptions)
    (htrace : options.trace = s.options.trace)
    (hprefetch : options.prefetch = s.options.prefetch)
    (hentry : ∀ project requirements, s.lockedEntry? project requirements =
      Solver.lockedEntry?
        { s with problem := { s.problem with lock }, options } project requirements) :
    s.run = { s with problem := { s.problem with lock }, options }.run := by
  have hversion : ∀ project requirements candidates,
      s.lockedVersion? project requirements candidates =
      { s with problem := { s.problem with lock }, options }.lockedVersion? project requirements
        candidates := by
    intro project requirements candidates
    unfold lockedVersion?
    rw [hentry]
  refine Resembles.run ⟨rfl, rfl, rfl, rfl, htrace.symm, rfl, fun project requirements => ?_,
    fun chosen => ?_⟩
  · unfold candidates
    simp only [hversion]
    rfl
  · unfold prefetch
    rw [← hprefetch]

end Solver

namespace Provider

variable (p : Provider) (problem : Problem) (options : SolveOptions)

/-- Projects that may be updated are treated as if the lock had no entries for them. -/
theorem solve_toChange (lock : Lock) (roots : SortedSet String) :
    p.solve { problem with lock := some lock } { options with toChange := roots } =
      p.solve { problem with lock := some (lock.without roots) }
        { options with toChange := .empty } := by
  unfold solve
  dsimp only
  rw [Solver.run_eq_of_lockedEntry? (some (lock.without roots))
    { options with toChange := .empty } rfl rfl]
  intro project requirements
  have hempty : (SortedSet.empty : SortedSet String).contains project.root = false := rfl
  simp only [Solver.lockedEntry?, Option.bind_some, Lock.find?_without, hempty, Bool.or_false]
  cases options.changeAll with
  | true => rfl
  | false => cases roots.contains project.root <;> rfl

/-- If all projects may be updated, the lock does not matter. -/
theorem solve_changeAll :
    p.solve problem { options with changeAll := true } =
      p.solve { problem with lock := none } options := by
  unfold solve
  dsimp only
  rw [Solver.run_eq_of_lockedEntry? none options rfl rfl]
  intro project requirements
  simp only [Solver.lockedEntry?, Bool.true_or, if_true, Option.bind_none,
    Option.filter_none, ite_self]

/-- To let projects be updated is to remove their entries from the lock, and to let all of them be
updated is to have no lock. -/
theorem solve_updates :
    (∀ lock roots, p.solve { problem with lock := some lock } { options with toChange := roots } =
      p.solve { problem with lock := some (lock.without roots) }
        { options with toChange := .empty }) ∧
    ∀ lock, p.solve { problem with lock } { options with changeAll := true } =
      p.solve { problem with lock := none } options :=
  ⟨p.solve_toChange problem options, fun lock => p.solve_changeAll { problem with lock } options⟩

end Provider

end Depsolve
