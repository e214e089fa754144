import Depsolve.Solve.Run

/-!
# Solvers that resemble one another

Of its options and of the earlier lock a solver makes only this: the candidates of a project,
what it asks for ahead of time, and whether the solution tells how it was found. Two solvers of
one problem that agree on these have the same run (`Solver.Resembles.run`), whatever lock and
options they have.
-/

namespace Depsolve

variable {σ : Type} {s s' : Solver σ}

namespace Solver

/-- Two solvers over one source, of one problem up to the earlier lock, that see the same candidates
and ask ahead of time for the same. -/
structure Resembles (s s' : Solver σ) : Prop where
  source : s.source = s'.source
  root : s.problem.root = s'.problem.root
  manifest : s.problem.manifest = s'.problem.manifest
  packages : s.problem.packages = s'.problem.packages
  trace : s.options.trace = s'.options.trace
  limits : s.limits = s'.limits
  candidates : ∀ project requirements, s.candidates project requirements =
    s'.candidates project requirements
  prefetch : ∀ chosen, s.prefetch chosen = s'.prefetch chosen

namespace Resembles

/-- What is the same in both may be taken to be one. -/
theorem exists_shared (h : s.Resembles s') : ∃ lock options, options.trace = s.options.trace ∧
    s' = { s with problem := { s.problem with lock }, options } := by
  obtain ⟨source, ⟨root, manifest, packages, lock⟩, options, limits⟩ := s
  obtain ⟨source', ⟨root', manifest', packages', lock'⟩, options', limits'⟩ := s'
  obtain rfl : source = source' := h.source
  obtain rfl : root = root' := h.root
  obtain rfl : manifest = manifest' := h.manifest
  obtain rfl : packages = packages' := h.packages
  obtain rfl : limits = limits' := h.limits
  exact ⟨lock', options', h.trace.symm, rfl⟩

theorem chooseFrom (h : s.Resembles s') (best : Option (Project × List Version))
    (waiting : List (Project × List Requirement)) :
    s.chooseFrom best waiting = s'.chooseFrom best waiting := by
  induction waiting generalizing best with
  | nil => rfl
  | cons entry rest ih => simp only [Solver.chooseFrom, h.candidates, ih]

theorem expand (h : s.Resembles s') (depth : Nat) : s.expand depth = s'.expand depth := by
  obtain ⟨lock, options, -, rfl⟩ := h.exists_shared
  induction depth with
  | zero => rfl
  | succ depth ih =>
    funext site packages known t
    rw [Solver.expand, Solver.expand, ih]
    rfl

theorem attempt (h : s.Resembles s') : s.attempt = s'.attempt := by
  funext chosen frame version
  simp only [Solver.attempt, h.limits, h.expand]

theorem tryCandidate (h : s.Resembles s') (search : Search) :
    s.tryCandidate search = s'.tryCandidate search := by
  funext frame version
  simp only [Solver.tryCandidate, h.attempt]

theorem decide (h : s.Resembles s') (search : Search) : s.decide search = s'.decide search := by
  have hchoose : s.choose search.chosen = s'.choose search.chosen :=
    h.chooseFrom none search.chosen.waiting
  have hprefetch := h.prefetch search.chosen
  obtain ⟨lock, options, -, rfl⟩ := h.exists_shared
  simp only [Solver.decide, hchoose, hprefetch]
  rfl

theorem step (h : s.Resembles s') (search : Search) : s.step search = s'.step search := by
  have hdecide := h.decide search
  have htry := h.tryCandidate search
  obtain ⟨lock, options, -, rfl⟩ := h.exists_shared
  unfold Solver.step
  simp only [hdecide, htry]
  rfl

theorem iterate (h : s.Resembles s') (n : Nat) (search : Search) :
    s.iterate n search = s'.iterate n search := by
  induction n generalizing search with
  | zero => rfl
  | succ n ih =>
    rw [Solver.iterate, Solver.iterate, h.step]
    simp only [ih]

/-- Solvers that resemble one another have the same run. -/
theorem run (h : s.Resembles s') : s.run = s'.run := by
  have hiterate := h.iterate
  obtain ⟨lock, options, htrace, rfl⟩ := h.exists_shared
  have hsolution : ∀ search, Solution.ofSearch { s.problem with lock } options search =
      Solution.ofSearch s.problem s.options search := by
    intro search
    unfold Solution.ofSearch
    rw [htrace]
    rfl
  unfold Solver.run
  simp only [hiterate, hsolution]
  rfl

end Resembles

end Solver

end Depsolve
