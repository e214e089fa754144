import Depsolve.Proofs.Solve.Reached

/-!
# How a search steps

`Solver.Steps` relates a state of a search to how the next step ends, with one constructor for
each thing that a step can do, and `Solver.steps` says that a solver over a plain universe
does nothing else.

A search never leaves the partial solutions that can be reached (`Solver.Grounded`), and it is over
only when no project waits.
-/

namespace Depsolve

variable {u : Universe} {problem : Problem} {options : SolveOptions} {limits : Limits}

/-- A jump, as the end of a step. -/
def Progress.ofJump (jump : Except Fault Search) : Except Stop Progress :=
  match jump with
  | .ok search => .ok (.ongoing search)
  | .error e => .error (.fault e)

/-- The frame with other candidates left. -/
def Frame.leaving (f : Frame) (left : List Version) : Frame :=
  { f with candidates := left }

/-- The search that looks at one more candidate, with a memo. -/
def Search.looking (search : Search) (memo : FailureMemo) : Search :=
  { search with memo, attempts := search.attempts + 1 }

namespace Solver

/-- How a step of a search ends. -/
inductive Steps (s : Solver Unit) (search : Search) : Except Stop Progress → Prop
  | unanswered {e : Stop} : search.phase = .deciding →
      (s.choose search.chosen).outcome = .error e → Steps s search (.error e)
  | complete : search.phase = .deciding → (s.choose search.chosen).outcome = .ok .complete →
      Steps s search (.ok (.complete search))
  | select {project : Project} {candidates : List Version} : search.phase = .deciding →
      (s.choose search.chosen).outcome = .ok (.project project candidates) →
      Steps s search (.ok (.ongoing
        ((search.report (.select project.root candidates.length)).tryFrame
          (.start project candidates))))
  | stuck {root : String} {requirements : List Requirement} : search.phase = .deciding →
      (s.choose search.chosen).outcome = .ok (.stuck root requirements) →
      Steps s search (Progress.ofJump (s.problem.backjumpStuck search root requirements))
  | spent {f : Frame} : search.phase = .trying f → f.candidates = [] →
      Steps s search (Progress.ofJump (s.problem.backjumpSpent search f))
  | prune {f : Frame} {v : Version} {left : List Version} {roots : List String}
      {memo : FailureMemo} : search.phase = .trying f → f.candidates = v :: left →
      search.consult (f.leaving left) v = (some roots, memo) →
      Steps s search (.ok (.ongoing ((search.looking memo).prune (f.leaving left) roots)))
  | accept {f : Frame} {v : Version} {left : List Version} {memo : FailureMemo}
      {added : List Requirement} : search.phase = .trying f → f.candidates = v :: left →
      search.consult (f.leaving left) v = (none, memo) →
      (s.attempt search.chosen (f.leaving left) v).outcome = .ok (.ok added) →
      Steps s search (.ok (.ongoing ((search.looking memo).accept (f.leaving left) v added)))
  | reject {f : Frame} {v : Version} {left : List Version} {memo : FailureMemo}
      {failure : Failure} : search.phase = .trying f → f.candidates = v :: left →
      search.consult (f.leaving left) v = (none, memo) →
      (s.attempt search.chosen (f.leaving left) v).outcome = .ok (.error failure) →
      Steps s search (.ok (.ongoing ((search.looking memo).reject (f.leaving left) v failure)))
  | halt {f : Frame} {v : Version} {left : List Version} {memo : FailureMemo} {e : Stop} :
      search.phase = .trying f → f.candidates = v :: left →
      search.consult (f.leaving left) v = (none, memo) →
      (s.attempt search.chosen (f.leaving left) v).outcome = .error e →
      Steps s search (.error e)

theorem prefetch_outcome (p : PartialSolution) :
    ((u.solver problem options limits).prefetch p).outcome = .ok () := by
  unfold prefetch
  split <;> rfl

variable (u problem options limits) in
theorem orStop_proceed_outcome (jump : Except Fault Search) :
    (orStop jump >>= (u.solver problem options limits).proceed).outcome =
      Progress.ofJump jump := by
  rw [Run.outcome_bind, Run.outcome_orStop]
  cases jump <;> rfl

theorem decide_steps {search : Search} (hphase : search.phase = .deciding) :
    (u.solver problem options limits).Steps search
      ((u.solver problem options limits).decide search).outcome := by
  have hdecide : ((u.solver problem options limits).decide search).outcome =
      match ((u.solver problem options limits).choose search.chosen).outcome with
      | .error e => .error e
      | .ok .complete => .ok (.complete search)
      | .ok (.project project candidates) => .ok (.ongoing
          ((search.report (.select project.root candidates.length)).tryFrame
            (.start project candidates)))
      | .ok (.stuck root requirements) =>
        Progress.ofJump (problem.backjumpStuck search root requirements) := by
    have hcheck :
        (ask (u.solver problem options limits).source.checkpoint : Run Unit Unit).outcome =
          .ok () := rfl
    unfold decide
    simp only [Run.outcome_bind, hcheck, prefetch_outcome]
    cases ((u.solver problem options limits).choose search.chosen).outcome with
    | error e => rfl
    | ok choice =>
      cases choice with
      | complete => rfl
      | project => rfl
      | stuck root requirements =>
        exact orStop_proceed_outcome u problem options limits
          (problem.backjumpStuck search root requirements)
  rw [hdecide]
  cases hc : ((u.solver problem options limits).choose search.chosen).outcome with
  | error e => exact .unanswered hphase hc
  | ok choice =>
    cases choice with
    | complete => exact .complete hphase hc
    | project => exact .select hphase hc
    | stuck => exact .stuck hphase hc

theorem tryCandidate_outcome (s : Solver Unit) (search : Search) (f : Frame) (v : Version) :
    (s.tryCandidate search f v).outcome =
      match search.consult f v with
      | (some roots, memo) => .ok ((search.looking memo).prune f roots)
      | (none, memo) =>
        match (s.attempt search.chosen f v).outcome with
        | .error e => .error e
        | .ok (.ok added) => .ok ((search.looking memo).accept f v added)
        | .ok (.error failure) => .ok ((search.looking memo).reject f v failure) := by
  unfold tryCandidate
  rcases search.consult f v with ⟨_ | roots, memo⟩
  · show (_ >>= _ : Run Unit Search).outcome = _
    have hrun : Run.outcome (s.attempt search.chosen f v).run =
      (s.attempt search.chosen f v).outcome := rfl
    rw [Run.outcome_bind]
    simp only [hrun]
    rcases (s.attempt search.chosen f v).outcome with _ | _ | _ <;> rfl
  · rfl

variable (u problem options limits) in
/-- A step of a search over a plain universe does what `Steps` says. -/
theorem steps (search : Search) : (u.solver problem options limits).Steps search
    ((u.solver problem options limits).step search).outcome := by
  unfold step
  cases hphase : search.phase with
  | deciding => exact decide_steps hphase
  | trying f =>
    cases hcand : f.candidates with
    | nil =>
      have hjump := orStop_proceed_outcome u problem options limits (problem.backjumpSpent search f)
      simp only [hcand]
      exact hjump ▸ .spent hphase hcand
    | cons v left =>
      have htry : ((u.solver problem options limits).tryCandidate search
          { f with candidates := left } v).outcome = _ :=
        tryCandidate_outcome (u.solver problem options limits) search (f.leaving left) v
      simp only [hcand, Run.outcome_bind]
      rw [htry]
      rcases hconsult : search.consult (f.leaving left) v with ⟨_ | roots, memo⟩
      · rcases ha : ((u.solver problem options limits).attempt search.chosen
          (f.leaving left) v).outcome with e | failure | added
        · exact .halt hphase hcand hconsult ha
        · exact .reject hphase hcand hconsult ha
        · exact .accept hphase hcand hconsult ha
      · exact .prune hphase hcand hconsult

end Solver

/-! ## Jumps -/

namespace Search

variable {search next : Search} {root : String} {culprits : SortedSet Nat}
  {conflicts : List Conflict}

/-- A jump goes back to the latest decision to blame, and puts the blame on earlier ones there. -/
theorem backjump_ok (h : search.backjump root culprits conflicts = .ok next) :
    ∃ i d, search.chosen.decision? i = some d ∧ i ∈ culprits ∧
      (∀ j ∈ culprits, j < search.chosen.size → j ≤ i) ∧ next.chosen = search.chosen.take i ∧
        next.phase = .trying (d.frame.blame
          ((culprits.filter (· < search.chosen.size)).filter (· < i)) conflicts) ∧
          next.memo = search.memo := by
  unfold backjump at h
  simp only at h
  split at h
  · simp at h
  · rename_i i d hmax
    obtain rfl := Except.ok.inj h
    simp only [Option.bind_eq_some_iff, Option.map_eq_some_iff, Prod.mk.injEq] at hmax
    -- the decision to go back to is the latest among those to blame that were made
    obtain ⟨i', hi, d', hd, rfl, rfl⟩ := hmax
    refine ⟨i', d', hd, (SortedSet.mem_filter.1 (SortedSet.mem_of_max? hi)).1, ?_, rfl, rfl, rfl⟩
    intro j hj hlt
    have hj' : j ∈ culprits.filter (· < search.chosen.size) :=
      SortedSet.mem_filter.2 ⟨hj, by simpa using hlt⟩
    exact Nat.not_lt.1 (SortedSet.not_lt_of_max? hi hj')

/-- With no decision to blame, there is no solution. -/
theorem backjump_error {e : Fault} (h : search.backjump root culprits conflicts = .error e) :
    e = .unsolvable root conflicts ∧ ∀ j ∈ culprits, ¬ j < search.chosen.size := by
  unfold backjump at h
  simp only at h
  split at h
  · rename_i hmax
    refine ⟨(Except.error.inj h).symm, fun j hj hlt => ?_⟩
    have hj' : j ∈ culprits.filter (· < search.chosen.size) :=
      SortedSet.mem_filter.2 ⟨hj, by simpa using hlt⟩
    cases hi : (culprits.filter (· < search.chosen.size)).max? with
    | none => exact SortedSet.eq_empty_of_max? hi j hj'
    | some i =>
      have hlt' := (SortedSet.mem_filter.1 (SortedSet.mem_of_max? hi)).2
      obtain ⟨d, hd⟩ := PartialSolution.exists_decision? (of_decide_eq_true hlt')
      simp [hi, hd] at hmax
  · simp at h

end Search

theorem Progress.ofJump_eq_ongoing {jump : Except Fault Search} {next : Search}
    (h : Progress.ofJump jump = .ok (.ongoing next)) : jump = .ok next := by
  cases jump with
  | error e => simp [ofJump] at h
  | ok search => simpa [ofJump] using h

theorem Progress.ofJump_eq_error {jump : Except Fault Search} {e : Stop}
    (h : Progress.ofJump jump = .error e) : ∃ fault, jump = .error fault ∧ e = .fault fault := by
  cases jump with
  | error fault => exact ⟨fault, rfl, by simpa [ofJump, eq_comm] using h⟩
  | ok search => simp [ofJump] at h

theorem Progress.ofJump_ne_complete {jump : Except Fault Search} {search : Search} :
    Progress.ofJump jump ≠ .ok (.complete search) := by
  cases jump <;> simp [ofJump]

/-! ## Moves -/

namespace Solver

/-- A search is over when no project waits. -/
theorem Steps.complete_inv {s : Solver Unit} {search : Search} {res : Except Stop Progress}
    (h : s.Steps search res) {last : Search} (hres : res = .ok (.complete last)) :
    last = search ∧ search.chosen.waiting = [] := by
  cases h with
  | complete hphase hc =>
    obtain rfl : search = last := by simpa using hres
    exact ⟨rfl, (chooseFrom_fits hc).2⟩
  | unanswered => simp at hres
  | select => simp at hres
  | stuck => exact absurd hres Progress.ofJump_ne_complete
  | spent => exact absurd hres Progress.ofJump_ne_complete
  | prune => simp at hres
  | accept => simp at hres
  | reject => simp at hres
  | halt => simp at hres

/-- What a step that goes on does to the decisions and to the candidates that are left. -/
inductive Moves (s : Solver Unit) (search next : Search) : Prop
  | select {project : Project} {candidates : List Version} : search.phase = .deciding →
      (s.choose search.chosen).outcome = .ok (.project project candidates) →
      next.chosen = search.chosen → next.phase = .trying (.start project candidates) →
      Moves s search next
  | accept {f : Frame} {v : Version} {left : List Version} {added : List Requirement} :
      search.phase = .trying f → f.candidates = v :: left →
      (s.attempt search.chosen (f.leaving left) v).outcome = .ok (.ok added) →
      next.chosen = search.chosen.push ⟨f.leaving left, v, added⟩ → next.phase = .deciding →
      Moves s search next
  | drop {f f' : Frame} {v : Version} {left : List Version} : search.phase = .trying f →
      f.candidates = v :: left → next.chosen = search.chosen → next.phase = .trying f' →
      f'.project = f.project → f'.candidates = left → Moves s search next
  | jump {i : Nat} {d : Decision} {f' : Frame} :
      (∀ f, search.phase = .trying f → f.candidates = []) → search.chosen.decision? i = some d →
      next.chosen = search.chosen.take i → next.phase = .trying f' →
      f'.project = d.frame.project → f'.candidates = d.frame.candidates → Moves s search next

theorem Steps.moves {s : Solver Unit} {search : Search} {res : Except Stop Progress}
    (h : s.Steps search res) {next : Search} (hres : res = .ok (.ongoing next)) :
    s.Moves search next := by
  cases h with
  | unanswered => simp at hres
  | complete => simp at hres
  | halt => simp at hres
  | select hphase hc =>
    obtain rfl : _ = next := by simpa using hres
    exact .select hphase hc rfl rfl
  | stuck hphase hc =>
    obtain ⟨i, d, hd, -, -, hchosen, hnext, -⟩ :=
      Search.backjump_ok (Progress.ofJump_eq_ongoing hres)
    exact .jump (fun f hf => by simp [hphase] at hf) hd hchosen hnext rfl rfl
  | @spent f hphase hcand =>
    obtain ⟨i, d, hd, -, -, hchosen, hnext, -⟩ :=
      Search.backjump_ok (Progress.ofJump_eq_ongoing hres)
    refine .jump (fun f' hf => ?_) hd hchosen hnext rfl rfl
    obtain rfl : f = f' := by simpa [hphase] using hf
    exact hcand
  | prune hphase hcand hc =>
    obtain rfl : _ = next := by simpa using hres
    exact .drop hphase hcand rfl rfl rfl rfl
  | accept hphase hcand hc ha =>
    obtain rfl : _ = next := by simpa using hres
    exact .accept hphase hcand ha rfl rfl
  | reject hphase hcand hc ha =>
    obtain rfl : _ = next := by simpa using hres
    exact .drop hphase hcand rfl rfl rfl rfl

/-- A search has reached its decisions, and looks at candidates of the next project. -/
structure Grounded (s : Solver Unit) (search : Search) : Prop where
  reached : s.Reached search.chosen
  opens : ∀ f, search.phase = .trying f → s.Opens search.chosen f.project f.candidates

theorem Grounded.start {s : Solver Unit} {base : List Requirement}
    (h : s.baseRequirements.outcome = .ok base) : s.Grounded (.start base) :=
  ⟨.base h, fun f hf => by simp [Search.start] at hf⟩

theorem Grounded.moves {s : Solver Unit} {search next : Search} (hg : s.Grounded search)
    (h : s.Moves search next) : s.Grounded next := by
  cases h with
  | @select project candidates hphase hc hchosen hnext =>
    refine ⟨by rw [hchosen]; exact hg.reached, fun f hf => ?_⟩
    obtain rfl : Frame.start project candidates = f := by simpa [hnext] using hf
    rw [hchosen]
    exact ⟨candidates, hc, List.suffix_refl _⟩
  | @accept f v left added hphase hcand ha hchosen hnext =>
    refine ⟨?_, fun f hf => by simp [hnext] at hf⟩
    rw [hchosen]
    have ho := hg.opens f hphase
    rw [hcand] at ho
    exact .push hg.reached ho ha
  | @drop f f' v left hphase hcand hchosen hnext hproject hleft =>
    refine ⟨by rw [hchosen]; exact hg.reached, fun f'' hf => ?_⟩
    obtain rfl : f' = f'' := by simpa [hnext] using hf
    have ho := hg.opens f hphase
    rw [hcand] at ho
    rw [hchosen, hproject, hleft]
    exact ho.suffix (List.suffix_cons v left)
  | @jump i d f' hphase hd hchosen hnext hproject hleft =>
    obtain ⟨hr, ho, -⟩ := hg.reached.decision hd
    refine ⟨by rw [hchosen]; exact hr, fun f'' hf => ?_⟩
    obtain rfl : f' = f'' := by simpa [hnext] using hf
    rw [hchosen, hproject, hleft]
    exact ho.suffix (List.suffix_cons d.version d.frame.candidates)

end Solver

/-! ## Stepping on -/

/-- Steps on by some step function until there is a solution, at most so many times. -/
def iterateBy {σ : Type} (step : Search → Run σ Progress) : Nat → Search → Run σ Search
  | 0, _ => throw .exhausted
  | n + 1, search => do
    match ← step search with
    | .complete search => return search
    | .ongoing search => iterateBy step n search

theorem Solver.iterate_eq_iterateBy {σ : Type} (s : Solver σ) (n : Nat) (search : Search) :
    s.iterate n search = iterateBy s.step n search := by
  induction n generalizing search with
  | zero => rfl
  | succ n ih =>
    rw [iterate, iterateBy]
    congr 1
    funext progress
    cases progress with
    | complete => rfl
    | ongoing search => exact ih search

section Iterate

variable {step : Search → Run Unit Progress} {Inv : Search → Prop} {μ : Search → Nat}

/-- A run that ends with a solution has kept what each step keeps. -/
theorem iterateBy_ok (hstep : ∀ a b, Inv a → (step a).outcome = .ok (.ongoing b) → Inv b)
    {n : Nat} {a b : Search} (ha : Inv a) (h : (iterateBy step n a).outcome = .ok b) :
    ∃ c, Inv c ∧ (step c).outcome = .ok (.complete b) := by
  induction n generalizing a with
  | zero => simp [iterateBy] at h
  | succ n ih =>
    rw [iterateBy, Run.outcome_bind_eq_ok_iff] at h
    obtain ⟨progress, hp, h⟩ := h
    cases progress with
    | complete b' =>
      obtain rfl : b' = b := by simpa using h
      exact ⟨a, ha, hp⟩
    | ongoing a' => exact ih (hstep a a' ha hp) h

/-- A run that stops was stopped by a step, or by a limit that is not above the measure. -/
theorem iterateBy_stop
    (hstep : ∀ a b, Inv a → (step a).outcome = .ok (.ongoing b) → Inv b ∧ μ b < μ a)
    {n : Nat} {a : Search} {e : Stop} (ha : Inv a) (h : (iterateBy step n a).outcome = .error e) :
    (∃ c, Inv c ∧ (step c).outcome = .error e) ∨ (e = .exhausted ∧ n ≤ μ a) := by
  induction n generalizing a with
  | zero =>
    obtain rfl : Stop.exhausted = e := by simpa [iterateBy] using h
    exact .inr ⟨rfl, Nat.zero_le _⟩
  | succ n ih =>
    rw [iterateBy, Run.outcome_bind_eq_error_iff] at h
    rcases h with h | ⟨progress, hp, h⟩
    · exact .inl ⟨a, ha, h⟩
    · cases progress with
      | complete b => simp at h
      | ongoing a' =>
        obtain ⟨ha', hlt⟩ := hstep a a' ha hp
        rcases ih ha' h with h | ⟨he, hle⟩
        · exact .inl h
        · exact .inr ⟨he, by omega⟩

end Iterate

end Depsolve
