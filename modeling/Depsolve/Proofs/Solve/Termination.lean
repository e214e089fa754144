import Depsolve.Proofs.Solve.Causes

/-!
# Searches end

No root is decided on twice, and no project has more candidates than `Universe.candidateBound`, so
the candidates that a search still has to look at are bounded. Each step lowers `Search.cost`, and
the limits of a universe are above the cost that a search starts with.
-/

namespace Depsolve

variable {u : Universe} {problem : Problem} {options : SolveOptions} {limits : Limits}

/-! ## The number of decisions -/

theorem Universe.length_roots : (u.projects.keys ++ u.unreachable.toList).length = u.rootCount := by
  simp [SortedMap.keys, rootCount, SortedMap.size, SortedSet.size]

/-- While a project waits, there are fewer decisions than roots. -/
theorem PartialSolution.Sound.size_lt {p : PartialSolution} (hp : p.Sound u problem)
    {project : Project} {left : List Version}
    (ho : (u.solver problem options limits).Opens p project left) : p.size < u.rootCount := by
  obtain ⟨r, hr, -, hproject⟩ := hp.required_of_opens ho
  -- the roots decided on and the one that waits are distinct, and each is a root of the universe
  have hnodup : (project.root :: p.decisions.map Decision.root).Nodup := by
    refine List.nodup_cons.2 ⟨fun hmem => ?_, hp.distinct⟩
    obtain ⟨d, hd, hroot⟩ := List.mem_map.1 hmem
    exact selected?_eq_none_iff.1 ho.selected? d hd hroot
  have hsub : project.root :: p.decisions.map Decision.root ⊆
      u.projects.keys ++ u.unreachable.toList := by
    intro root hroot
    rcases List.mem_cons.1 hroot with rfl | hroot
    · rw [← hproject]
      exact (hp.owned r hr).mem_roots
    · obtain ⟨d, hd, rfl⟩ := List.mem_map.1 hroot
      obtain ⟨r', hr', -, hproject'⟩ := hp.required d hd
      have hown := hp.owned r' hr'
      rw [hproject'] at hown
      exact hown.mem_roots
  have hle := (List.subperm_of_subset hnodup hsub).length_le
  rw [Universe.length_roots, List.length_cons, List.length_map] at hle
  exact hle

/-! ## The cost of a search -/

/-- A bound on the steps of a search that has so many roots left to decide on, with at most `bound`
candidates for each. -/
def levelCost (bound : Nat) : Nat → Nat
  | 0 => 1
  | k + 1 => bound * (levelCost bound k + 1) + 2

theorem levelCost_pos (bound k : Nat) : 0 < levelCost bound k := by
  cases k <;> simp [levelCost]

theorem levelCost_lt_pow (bound k : Nat) : levelCost bound k < Nat.pow (2 * bound + 4) (k + 1) := by
  show levelCost bound k < (2 * bound + 4) ^ (k + 1)
  induction k with
  | zero =>
    rw [levelCost, Nat.pow_one]
    omega
  | succ k ih =>
    have hmul : bound * (levelCost bound k + 1) ≤ bound * (2 * bound + 4) ^ (k + 1) :=
      Nat.mul_le_mul_left bound ih
    have hpos : 0 < (2 * bound + 4) ^ (k + 1) := Nat.pow_pos (by omega)
    rw [levelCost, Nat.pow_succ, Nat.mul_comm _ (2 * bound + 4), Nat.add_mul, Nat.mul_assoc]
    omega

/-- What it may cost to look at the candidates that are left for a project, with so many roots left
to decide on after it. -/
def leftCost (bound k : Nat) (left : List Version) : Nat :=
  left.length * (levelCost bound k + 1) + 1

/-- What it may cost to look at the candidates that some decisions have left, with so many roots to
decide on at the first of them. -/
def owed (bound : Nat) : Nat → List Decision → Nat
  | _, [] => 0
  | k, d :: rest => leftCost bound (k - 1) d.frame.candidates + owed bound (k - 1) rest

theorem owed_append {bound k : Nat} {l : List Decision} {d : Decision} :
    owed bound k (l ++ [d]) =
      owed bound k l + leftCost bound (k - (l.length + 1)) d.frame.candidates := by
  induction l generalizing k with
  | nil => simp [owed]
  | cons e l ih =>
    rw [List.cons_append, owed, owed, ih, List.length_cons,
      show k - 1 - (l.length + 1) = k - (l.length + 1 + 1) by omega]
    omega

theorem owed_take_le (bound k : Nat) {i : Nat} {l : List Decision} {d : Decision}
    (h : l[i]? = some d) :
    owed bound k (l.take i) + leftCost bound (k - (i + 1)) d.frame.candidates ≤ owed bound k l := by
  induction l generalizing k i with
  | nil => simp at h
  | cons e l ih =>
    cases i with
    | zero =>
      obtain rfl : e = d := by simpa using h
      simp [owed]
    | succ i =>
      have hle := ih (k - 1) (by simpa using h : l[i]? = some d)
      rw [List.take_succ_cons, owed, owed,
        show k - (i + 1 + 1) = k - 1 - (i + 1) by omega]
      omega

/-- What a search may still cost, in steps. -/
def Search.cost (u : Universe) (search : Search) : Nat :=
  owed u.candidateBound u.rootCount search.chosen.decisions +
    match search.phase with
    | .deciding => levelCost u.candidateBound (u.rootCount - search.chosen.size)
    | .trying f => leftCost u.candidateBound (u.rootCount - (search.chosen.size + 1)) f.candidates

theorem Search.cost_of_deciding {search : Search} (h : search.phase = .deciding) :
    search.cost u = owed u.candidateBound u.rootCount search.chosen.decisions +
      levelCost u.candidateBound (u.rootCount - search.chosen.size) := by
  rw [cost, h]

theorem Search.cost_of_trying {search : Search} {f : Frame} (h : search.phase = .trying f) :
    search.cost u = owed u.candidateBound u.rootCount search.chosen.decisions +
      leftCost u.candidateBound (u.rootCount - (search.chosen.size + 1)) f.candidates := by
  rw [cost, h]

theorem leftCost_cons {bound k : Nat} {v : Version} {left : List Version} :
    leftCost bound k (v :: left) = leftCost bound k left + levelCost bound k + 1 := by
  simp only [leftCost, List.length_cons, Nat.add_mul]
  omega

namespace Solver

/-- Each step of a search lowers what it may still cost. -/
theorem Grounded.cost_lt {search next : Search}
    (hg : (u.solver problem options limits).Grounded search)
    (h : (u.solver problem options limits).Moves search next) : next.cost u < search.cost u := by
  cases h with
  | @select project candidates hphase hc hchosen hnext =>
    have ho : (u.solver problem options limits).Opens search.chosen project candidates :=
      ⟨candidates, hc, List.suffix_refl _⟩
    have hsize := (PartialSolution.sound_of_reached hg.reached).size_lt ho
    obtain ⟨all, hoffers, hsuffix⟩ := ho.offers
    have hlength : candidates.length ≤ u.candidateBound :=
      Nat.le_trans hsuffix.length_le hoffers.length_le
    have hmul := Nat.mul_le_mul_right
      (levelCost u.candidateBound (u.rootCount - (search.chosen.size + 1)) + 1) hlength
    rw [Search.cost_of_deciding hphase, Search.cost_of_trying hnext, hchosen,
      show u.rootCount - search.chosen.size = u.rootCount - (search.chosen.size + 1) + 1 by omega,
      levelCost]
    simp only [leftCost, Frame.start]
    omega
  | @accept f v left added hphase hcand ha hchosen hnext =>
    have hcost : owed u.candidateBound u.rootCount next.chosen.decisions =
        owed u.candidateBound u.rootCount search.chosen.decisions +
          leftCost u.candidateBound (u.rootCount - (search.chosen.size + 1)) left := by
      rw [hchosen, PartialSolution.push, owed_append]
      rfl
    have hsize : next.chosen.size = search.chosen.size + 1 := by
      rw [hchosen, PartialSolution.size_push]
    rw [Search.cost_of_trying hphase, Search.cost_of_deciding hnext, hcost, hsize, hcand,
      leftCost_cons]
    omega
  | @drop f f' v left hphase hcand hchosen hnext hproject hleft =>
    rw [Search.cost_of_trying hphase, Search.cost_of_trying hnext, hchosen, hleft, hcand,
      leftCost_cons]
    omega
  -- what was owed for the decision to go back to covers its candidates; what was owed for later
  -- ones is gone
  | @jump i d f' hphase hd hchosen hnext hproject hleft =>
    have hlt : i < search.chosen.size := PartialSolution.decision?_lt hd
    have hle := owed_take_le u.candidateBound u.rootCount hd
    have hsize : next.chosen.size = i := by
      rw [hchosen, PartialSolution.size_take (Nat.le_of_lt hlt)]
    have hpos : owed u.candidateBound u.rootCount search.chosen.decisions < search.cost u := by
      cases hp : search.phase with
      | deciding =>
        have := levelCost_pos u.candidateBound (u.rootCount - search.chosen.size)
        rw [Search.cost_of_deciding hp]
        omega
      | trying f =>
        rw [Search.cost_of_trying hp, leftCost]
        omega
    have htake : (search.chosen.take i).decisions = search.chosen.decisions.take i := rfl
    rw [Search.cost_of_trying hnext, hsize, hchosen, hleft, htake]
    omega

end Solver

theorem Search.cost_start_lt (base : List Requirement) :
    (Search.start base).cost u < u.limits.steps := by
  rw [Search.cost_of_deciding rfl]
  simp only [start, owed, PartialSolution.size, List.length_nil, Nat.sub_zero, Nat.zero_add]
  exact levelCost_lt_pow u.candidateBound u.rootCount

/-! ## Runs -/

namespace Solver

/-- Choosing a project stops only where one cannot be reached. -/
theorem choose_stop {p : PartialSolution} {e : Stop}
    (h : ((u.solver problem options limits).choose p).outcome = .error e) :
    ∃ e', e = .ofLookup e' := by
  obtain ⟨-, -, e', -, -, he⟩ := chooseFrom_stop h
  exact ⟨e', he⟩

/-- A run within the limits of its universe stops only in finding the first requirements, or at a
step. -/
theorem runBy_stop {step : Search → Run Unit Progress}
    (hwalks : (u.solver problem options u.limits).Walks step) {e : Stop}
    (h : ((u.solver problem options u.limits).runBy step).outcome = .error e) :
    (u.solver problem options u.limits).baseRequirements.outcome = .error e ∨
      ∃ a, (u.solver problem options u.limits).VisitsBy step a ∧ (step a).outcome = .error e := by
  have hstep : ∀ a b, (u.solver problem options u.limits).VisitsBy step a →
      (step a).outcome = .ok (.ongoing b) →
        (u.solver problem options u.limits).VisitsBy step b ∧ b.cost u < a.cost u :=
        fun a b ha hab =>
    ⟨.step ha hab, (ha.grounded hwalks).cost_lt (hwalks.moves hab)⟩
  cases hsearch : ((u.solver problem options u.limits).searchBy step).outcome with
  | ok search =>
    have hreached := ((searchBy_ok hwalks hsearch).1.grounded hwalks).reached
    obtain ⟨solution, hsol⟩ :=
      exists_runBy_ok hsearch (PartialSolution.sound_of_reached hreached).distinct
    simp [hsol] at h
  | error e' =>
    obtain rfl : e' = e := by simpa [runBy, hsearch] using h
    rw [searchBy, Run.outcome_bind_eq_error_iff] at hsearch
    rcases hsearch with hbase | ⟨base, hbase, hiter⟩
    · exact .inl hbase
    · rcases iterateBy_stop hstep (.start hbase) hiter with hstop | ⟨-, hle⟩
      · exact .inr hstop
      -- the limits are above what the search costs at its start
      · exact absurd hle (Nat.not_le.2 (Search.cost_start_lt base))

/-- A run within the limits of its universe is not stopped by them, but only for a cause in the
universe, or for there being no solution. -/
theorem run_causes {e : Stop} (h : (u.solver problem options u.limits).run.outcome = .error e) :
    (∃ cause, u.Causes problem cause ∧ e = .ofLookup cause) ∨
      ∃ root conflicts, e = .fault (.unsolvable root conflicts) := by
  rw [run_eq_runBy] at h
  rcases runBy_stop walks_step h with h | ⟨a, ha, hstop⟩
  · exact .inl (baseRequirements_causes h)
  · exact (ha.grounded walks_step).step_causes (Nat.lt_succ_self _) hstop

/-- A run within the limits of its universe stops only where something cannot be looked up, or for
there being no solution. -/
theorem run_stop {e : Stop} (h : (u.solver problem options u.limits).run.outcome = .error e) :
    (∃ e', e = .ofLookup e') ∨ ∃ root conflicts, e = .fault (.unsolvable root conflicts) :=
  (run_causes h).imp_left fun ⟨cause, _, he⟩ => ⟨cause, he⟩

end Solver

end Depsolve
