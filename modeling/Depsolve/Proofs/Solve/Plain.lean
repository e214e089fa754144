import Depsolve.Proofs.Solve.Termination

/-!
# The plain search

A plain search picks projects, looks up candidates and tries them as a solver does, but goes back
one decision at a time, and remembers no failure. It looks at everything that can be looked at, so
it is what another search is measured by.
-/

namespace Depsolve

/-- Goes back to the decision before, which is then tried with its next candidate. Without one,
there is no solution. -/
def Search.stepBack (s : Search) (root : String) : Except Fault Search :=
  match s.chosen.decision? (s.chosen.size - 1) with
  | none => .error (.unsolvable root [])
  | some d =>
    .ok { s with
      chosen := s.chosen.take (s.chosen.size - 1)
      phase := .trying d.frame
      backtracks := s.backtracks + 1 }

namespace Solver

variable {σ : Type}

/-- One transition of the plain search. -/
def plainStep (s : Solver σ) (search : Search) : Run σ Progress :=
  match search.phase with
  | .deciding => do
    match ← s.choose search.chosen with
    | .complete => return .complete search
    | .project project candidates => return .ongoing (search.tryFrame (.start project candidates))
    | .stuck root _ => return .ongoing (← orStop (search.stepBack root))
  | .trying frame =>
    match frame.candidates with
    | [] => do return .ongoing (← orStop (search.stepBack frame.project.root))
    | version :: rest => do
      match ← (s.attempt search.chosen { frame with candidates := rest } version).run with
      | .ok added => return .ongoing (search.accept { frame with candidates := rest } version added)
      | .error _ => return .ongoing (search.tryFrame { frame with candidates := rest })

/-- Solves the problem by the plain search. -/
def plainRun (s : Solver σ) : Run σ Solution :=
  s.runBy s.plainStep

/-! ## How the plain search steps -/

variable {u : Universe} {problem : Problem} {options : SolveOptions} {limits : Limits}

/-- How a step of the plain search ends. -/
inductive PlainSteps (s : Solver Unit) (search : Search) : Except Stop Progress → Prop
  | unanswered {e : Stop} : search.phase = .deciding →
      (s.choose search.chosen).outcome = .error e → PlainSteps s search (.error e)
  | complete : search.phase = .deciding → (s.choose search.chosen).outcome = .ok .complete →
      PlainSteps s search (.ok (.complete search))
  | select {project : Project} {candidates : List Version} : search.phase = .deciding →
      (s.choose search.chosen).outcome = .ok (.project project candidates) →
      PlainSteps s search (.ok (.ongoing (search.tryFrame (.start project candidates))))
  | stuck {root : String} {requirements : List Requirement} : search.phase = .deciding →
      (s.choose search.chosen).outcome = .ok (.stuck root requirements) →
      PlainSteps s search (Progress.ofJump (search.stepBack root))
  | spent {f : Frame} : search.phase = .trying f → f.candidates = [] →
      PlainSteps s search (Progress.ofJump (search.stepBack f.project.root))
  | accept {f : Frame} {v : Version} {left : List Version} {added : List Requirement} :
      search.phase = .trying f → f.candidates = v :: left →
      (s.attempt search.chosen (f.leaving left) v).outcome = .ok (.ok added) →
      PlainSteps s search (.ok (.ongoing (search.accept (f.leaving left) v added)))
  | reject {f : Frame} {v : Version} {left : List Version} {failure : Failure} :
      search.phase = .trying f → f.candidates = v :: left →
      (s.attempt search.chosen (f.leaving left) v).outcome = .ok (.error failure) →
      PlainSteps s search (.ok (.ongoing (search.tryFrame (f.leaving left))))
  | halt {f : Frame} {v : Version} {left : List Version} {e : Stop} :
      search.phase = .trying f → f.candidates = v :: left →
      (s.attempt search.chosen (f.leaving left) v).outcome = .error e →
      PlainSteps s search (.error e)

theorem orStop_ongoing_outcome (jump : Except Fault Search) :
    (do return .ongoing (← orStop jump) : Run Unit Progress).outcome = Progress.ofJump jump := by
  rw [Run.outcome_bind, Run.outcome_orStop]
  cases jump <;> rfl

/-- A step of the plain search does what `PlainSteps` says. -/
theorem plainSteps (s : Solver Unit) (search : Search) :
    s.PlainSteps search (s.plainStep search).outcome := by
  unfold plainStep
  cases hphase : search.phase with
  | deciding =>
    dsimp only
    rw [Run.outcome_bind]
    rcases hc : (s.choose search.chosen).outcome with e | choice
    · exact .unanswered hphase hc
    · cases choice with
      | complete => exact .complete hphase hc
      | project => exact .select hphase hc
      | stuck root requirements =>
        dsimp only
        rw [orStop_ongoing_outcome]
        exact .stuck hphase hc
  | trying f =>
    cases hcand : f.candidates with
    | nil =>
      simp only [hcand]
      rw [orStop_ongoing_outcome]
      exact .spent hphase hcand
    | cons v left =>
      simp only [hcand]
      -- an attempt that is run for its result ends as the attempt
      have hrun : Run.outcome (s.attempt search.chosen { f with candidates := left } v).run =
        (s.attempt search.chosen (f.leaving left) v).outcome := rfl
      rw [Run.outcome_bind, hrun]
      rcases ha : (s.attempt search.chosen (f.leaving left) v).outcome with e | failure | added
      · exact .halt hphase hcand ha
      · exact .reject hphase hcand ha
      · exact .accept hphase hcand ha

end Solver

theorem Search.stepBack_ok {search next : Search} {root : String}
    (h : search.stepBack root = .ok next) :
    ∃ i d, search.chosen.size = i + 1 ∧ search.chosen.decision? i = some d ∧
      next.chosen = search.chosen.take i ∧ next.phase = .trying d.frame := by
  unfold stepBack at h
  split at h
  · simp at h
  · rename_i d hd
    obtain rfl := Except.ok.inj h
    have hlt := PartialSolution.decision?_lt hd
    exact ⟨search.chosen.size - 1, d, by omega, hd, rfl, rfl⟩

theorem Search.stepBack_error {search : Search} {root : String} {e : Fault}
    (h : search.stepBack root = .error e) : e = .unsolvable root [] ∧ search.chosen.size = 0 := by
  unfold stepBack at h
  split at h
  · rename_i hnone
    have hle := List.getElem?_eq_none_iff.1 hnone
    change search.chosen.size ≤ search.chosen.size - 1 at hle
    exact ⟨(Except.error.inj h).symm, by omega⟩
  · simp at h

namespace Solver

variable {u : Universe} {problem : Problem} {options : SolveOptions} {limits : Limits}

theorem PlainSteps.moves {s : Solver Unit} {search : Search} {res : Except Stop Progress}
    (h : s.PlainSteps search res) {next : Search} (hres : res = .ok (.ongoing next)) :
    s.Moves search next := by
  cases h with
  | unanswered => simp at hres
  | complete => simp at hres
  | halt => simp at hres
  | select hphase hc =>
    obtain rfl : _ = next := by simpa using hres
    exact .select hphase hc rfl rfl
  | stuck hphase hc =>
    obtain ⟨i, d, -, hd, hchosen, hnext⟩ := Search.stepBack_ok (Progress.ofJump_eq_ongoing hres)
    exact .jump (fun f hf => by simp [hphase] at hf) hd hchosen hnext rfl rfl
  | @spent f hphase hcand =>
    obtain ⟨i, d, -, hd, hchosen, hnext⟩ := Search.stepBack_ok (Progress.ofJump_eq_ongoing hres)
    refine .jump (fun f' hf => ?_) hd hchosen hnext rfl rfl
    obtain rfl : f = f' := by simpa [hphase] using hf
    exact hcand
  | accept hphase hcand ha =>
    obtain rfl : _ = next := by simpa using hres
    exact .accept hphase hcand ha rfl rfl
  | reject hphase hcand ha =>
    obtain rfl : _ = next := by simpa using hres
    exact .drop hphase hcand rfl rfl rfl rfl

/-- The plain search is over when no project waits. -/
theorem PlainSteps.complete_inv {s : Solver Unit} {search : Search} {res : Except Stop Progress}
    (h : s.PlainSteps search res) {last : Search} (hres : res = .ok (.complete last)) :
    last = search ∧ search.chosen.waiting = [] := by
  cases h with
  | complete hphase hc =>
    obtain rfl : search = last := by simpa using hres
    exact ⟨rfl, (chooseFrom_fits hc).2⟩
  | unanswered => simp at hres
  | select => simp at hres
  | stuck => exact absurd hres Progress.ofJump_ne_complete
  | spent => exact absurd hres Progress.ofJump_ne_complete
  | accept => simp at hres
  | reject => simp at hres
  | halt => simp at hres

theorem walks_plainStep {s : Solver Unit} : s.Walks s.plainStep :=
  ⟨fun {a _} h => (h ▸ plainSteps s a).moves rfl,
    fun {a _} h => (h ▸ plainSteps s a).complete_inv rfl⟩

end Solver

end Depsolve
