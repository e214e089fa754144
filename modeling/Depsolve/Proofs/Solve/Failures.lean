import Depsolve.Proofs.Solve.Graph
import Depsolve.Proofs.Solve.Termination

/-!
# Failures

Solving a problem fails only for a reason that a caller can act on (`Universe.Genuine`): there is no
solution, the run was cancelled, or the universe gives cause for a fault of its source. What a
solver comes to on its own is never at fault: every version in a frame has a manifest and packages
under the project of the frame, the decisions of a finished search always make a lock, and no edge
is left out of their graph.
-/

namespace Depsolve

/-- Why solving a problem over a universe may fail. -/
inductive Universe.Genuine (u : Universe) (problem : Problem) : Fault → Prop
  | unsolvable {root : String} {conflicts : List Conflict} :
      Genuine u problem (.unsolvable root conflicts)
  | cancelled : Genuine u problem .cancelled
  | lookup {cause : SourceFault} : u.Causes problem cause → Genuine u problem (.lookup cause)

/-- A version of a project has a manifest and packages. -/
def Universe.Describes (u : Universe) (project : Project) (v : Version) : Prop :=
  ∃ manifest tree, u.manifestOf project v = .ok manifest ∧ u.packagesOf project v = .ok tree

theorem Universe.Has.describes {u : Universe} {project : Project} {v : Version}
    (h : u.Has project v) : u.Describes project v := by
  obtain ⟨tree, htree⟩ := h.exists_packagesOf
  obtain ⟨manifest, hmanifest⟩ := exists_manifestOf htree
  exact ⟨manifest, tree, hmanifest, htree⟩

/-- The version chosen in a frame and those that are left to try have a manifest and packages. -/
theorem Solver.Grounded.describes {u : Universe} {problem : Problem} {options : SolveOptions}
    {limits : Limits} {search : Search} (hg : (u.solver problem options limits).Grounded search)
    {f : Frame} {chosen : Option Version} (hf : (f, chosen) ∈ search.frames) {v : Version}
    (hv : v ∈ chosen.toList ++ f.candidates) : u.Describes f.project v := by
  have hoffered : ∀ {p : PartialSolution} {project : Project} {left : List Version},
      (u.solver problem options limits).Opens p project left → v ∈ left →
      u.Describes project v := by
    intro p project left ho hmem
    obtain ⟨candidates, hoffers, hsuffix⟩ := ho.offers
    exact (hoffers.present v (hsuffix.subset hmem)).describes
  rcases List.mem_append.1 hf with hf | hf
  · obtain ⟨d, hd, heq⟩ := List.mem_map.1 hf
    obtain ⟨rfl, rfl⟩ := Prod.mk.inj heq
    obtain ⟨i, hi⟩ := List.mem_iff_getElem?.1 hd
    obtain ⟨-, ho, -⟩ := hg.reached.decision hi
    exact hoffered ho (by simpa using hv)
  · split at hf
    · simp at hf
    · rename_i f' hphase
      obtain ⟨rfl, rfl⟩ := Prod.mk.inj (List.mem_singleton.1 hf)
      exact hoffered (hg.opens f hphase) (by simpa using hv)

namespace Provider

/-- Solving a problem with a provider fails only for genuine reasons. -/
structure FailsGenuinely (p : Provider) (problem : Problem) (options : SolveOptions) : Prop where
  genuine : ∀ stop, (p.solve problem options).1 = .error stop →
    ∃ fault, stop = .fault fault ∧ p.world.Genuine problem fault
  /-- It is the caller that cancels. -/
  cancelled : (p.solve problem options).1 = .error (.fault .cancelled) →
    p.isCancelled = true ∨ p.patience ≠ none
  /-- Whatever the search comes to, the versions in its frames can be asked about. -/
  described : ∀ n search, p.searchAt problem options n = some search →
    ∀ f chosen, (f, chosen) ∈ search.frames → ∀ v ∈ chosen.toList ++ f.candidates,
      p.world.Describes f.project v
  /-- The graph of a solution has all edges: both ends of every requirement are there. -/
  graph : ∀ solution, (p.solve problem options).1 = .ok solution → ∃ search,
    (p.world.solver problem options p.world.limits).Visits search ∧
      Solution.ofSearch problem options search = .ok solution ∧
        search.chosen.graph? problem.root = .ok solution.graph

/-- A run over the plain universe fails for a cause in the universe, or as there is no solution. -/
theorem genuine_of_outcome {p : Provider} {problem : Problem} {options : SolveOptions} {stop : Stop}
    (h : (p.world.solver problem options p.world.limits).run.outcome = .error stop) :
    ∃ fault, stop = .fault fault ∧ fault ≠ .cancelled ∧ p.world.Genuine problem fault := by
  rcases Solver.run_causes h with ⟨cause, hcause, rfl⟩ | ⟨root, conflicts, rfl⟩
  · exact ⟨_, rfl, by simp, .lookup hcause⟩
  · exact ⟨_, rfl, by simp, .unsolvable⟩

theorem graph?_eq_of_solve {p : Provider} {problem : Problem} {options : SolveOptions}
    {solution : Solution} (h : (p.solve problem options).1 = .ok solution) : ∃ search,
      (p.world.solver problem options p.world.limits).Visits search ∧
        Solution.ofSearch problem options search = .ok solution ∧
          search.chosen.graph? problem.root = .ok solution.graph := by
  obtain ⟨search, hvisits, hwaiting, hsol⟩ := exists_search_of_solve h
  have hreached := hvisits.grounded.reached
  have hp := PartialSolution.sound_of_reached hreached
  refine ⟨search, hvisits, hsol, ?_⟩
  rw [Solution.ofSearch_graph hsol]
  exact hp.graph?_eq (PartialSolution.complete_of_waiting hwaiting)
    (PartialSolution.ordered_of_reached hreached) (PartialSolution.rooted_of_reached hreached)

/-- Whatever the universe, the problem and the options: solving fails only for genuine reasons. -/
theorem failsGenuinely (p : Provider) (problem : Problem) (options : SolveOptions) :
    p.FailsGenuinely problem options := by
  refine ⟨?genuine, ?cancelled, ?described, fun _ => graph?_eq_of_solve⟩
  case genuine =>
    intro stop h
    rcases p.solve_eq problem options with he | he
    · obtain rfl : Stop.fault .cancelled = stop := by simpa [he] using h
      exact ⟨_, rfl, .cancelled⟩
    · rw [he] at h
      obtain ⟨fault, hstop, -, hgenuine⟩ := genuine_of_outcome h
      exact ⟨fault, hstop, hgenuine⟩
  case cancelled =>
    intro h
    by_cases hcancel : p.isCancelled = true
    · exact .inl hcancel
    · refine .inr fun hplan => ?_
      rw [solve_eq_of_calm (by simpa using hcancel) hplan] at h
      obtain ⟨fault, hstop, hne, -⟩ := genuine_of_outcome h
      exact hne (Stop.fault.inj hstop).symm
  case described =>
    intro n search h f chosen hf v hv
    exact (searchAt_visits h).grounded.describes hf hv

end Provider

end Depsolve
