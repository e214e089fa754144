import Depsolve.Proofs.Solve.Course
import Depsolve.Proofs.Solve.Limits
import Depsolve.Proofs.Solve.Termination

/-!
# How solving ends

Solving a problem with a provider ends with a solution or a fault (`Provider.solve_ends`), and it is
not the limits that end it. What a search may still cost goes down with each step, so no stack of
decisions comes up twice; and an expansion within an expansion always brings in a package that was
not required before.
-/

namespace Depsolve

/-! ## What steps count -/

theorem Search.backjump_counts {search next : Search} {root : String} {culprits : SortedSet Nat}
    {conflicts : List Conflict} (h : search.backjump root culprits conflicts = .ok next) :
    next.attempts = search.attempts ∧ next.backtracks = search.backtracks + 1 := by
  unfold backjump at h
  simp only at h
  split at h
  · simp at h
  · obtain rfl := Except.ok.inj h
    exact ⟨rfl, rfl⟩

theorem Solver.Steps.attempts_le {s : Solver Unit} {search next : Search}
    {res : Except Stop Progress} (h : s.Steps search res) (hres : res = .ok (.ongoing next)) :
    next.attempts ≤ search.attempts + 1 := by
  cases h with
  | unanswered => simp at hres
  | complete => simp at hres
  | halt => simp at hres
  | stuck =>
    rw [(Search.backjump_counts (Progress.ofJump_eq_ongoing hres)).1]
    omega
  | spent =>
    rw [(Search.backjump_counts (Progress.ofJump_eq_ongoing hres)).1]
    omega
  | select =>
    obtain rfl : _ = next := by simpa using hres
    exact Nat.le_succ _
  | prune =>
    obtain rfl : _ = next := by simpa using hres
    exact Nat.le_refl _
  | accept =>
    obtain rfl : _ = next := by simpa using hres
    exact Nat.le_refl _
  | reject =>
    obtain rfl : _ = next := by simpa using hres
    exact Nat.le_refl _

/-! ## What states cost -/

/-- The projects of the decisions, each with the version chosen and the candidates left. -/
def Search.stack (s : Search) : List (Project × Version × List Version) :=
  s.chosen.decisions.map fun d => (d.frame.project, d.version, d.frame.candidates)

theorem owed_congr {bound k : Nat} {l l' : List Decision}
    (h : l.map (·.frame.candidates) = l'.map (·.frame.candidates)) :
    owed bound k l = owed bound k l' := by
  induction l generalizing k l' with
  | nil =>
    obtain rfl : l' = [] := by simpa using h.symm
    rfl
  | cons d l ih =>
    cases l' with
    | nil => simp at h
    | cons d' l' =>
      rw [List.map_cons, List.map_cons] at h
      obtain ⟨hd, hl⟩ := List.cons.inj h
      rw [owed, owed, hd, ih hl]

/-- Before the next project is picked, what a search may still cost depends on its stack alone. -/
theorem Search.cost_congr {u : Universe} {a b : Search} (ha : a.phase = .deciding)
    (hb : b.phase = .deciding) (h : a.stack = b.stack) : a.cost u = b.cost u := by
  have hcandidates : a.chosen.decisions.map (·.frame.candidates) =
      b.chosen.decisions.map (·.frame.candidates) := by
    have h' := congrArg (List.map fun x => x.2.2) h
    simpa [stack, Function.comp_def] using h'
  have hsize : a.chosen.size = b.chosen.size := by
    have h' := congrArg List.length h
    simpa [stack, PartialSolution.size] using h'
  rw [cost_of_deciding ha, cost_of_deciding hb, owed_congr hcandidates, hsize]

namespace Provider

variable {p : Provider} {problem : Problem} {options : SolveOptions} {n : Nat}

theorem searchAt_cost {search : Search} (h : p.searchAt problem options n = some search) :
    search.cost p.world + n < p.world.limits.steps := by
  induction n generalizing search with
  | zero =>
    obtain ⟨base, rfl⟩ := searchAt_zero h
    exact Search.cost_start_lt base
  | succ n ih =>
    obtain ⟨before, hbefore, hstep⟩ := searchAt_succ h
    have hlt := (searchAt_visits hbefore).grounded.cost_lt (Solver.walks_step.moves hstep)
    have := ih hbefore
    omega

theorem searchAt_cost_lt {i j : Nat} (hij : i < j) {a b : Search}
    (ha : p.searchAt problem options i = some a) (hb : p.searchAt problem options j = some b) :
    b.cost p.world < a.cost p.world := by
  induction j generalizing b with
  | zero => exact absurd hij (Nat.not_lt_zero i)
  | succ j ih =>
    obtain ⟨before, hbefore, hstep⟩ := searchAt_succ hb
    have hlt := (searchAt_visits hbefore).grounded.cost_lt (Solver.walks_step.moves hstep)
    by_cases hj : i = j
    · subst hj
      obtain rfl : a = before := Option.some.inj (ha.symm.trans hbefore)
      exact hlt
    · have := ih (by omega) hbefore
      omega

theorem searchAt_attempts {search : Search} (h : p.searchAt problem options n = some search) :
    search.attempts ≤ n := by
  induction n generalizing search with
  | zero =>
    obtain ⟨base, rfl⟩ := searchAt_zero h
    exact Nat.le_refl 0
  | succ n ih =>
    obtain ⟨before, hbefore, hstep⟩ := searchAt_succ h
    have hle := (hstep ▸ Solver.steps p.world problem options p.world.limits before).attempts_le rfl
    have := ih hbefore
    omega

end Provider

/-! ## Expansions within expansions -/

/-- The last thing that a trial requires are packages of a project that is decided on, and these are
some of them, which were not required of the project before. -/
def Trial.AsksAnew (t : Trial) (site : Selected) (packages known : SortedSet String) : Prop :=
  ∃ (before : Trial) (r : Requirement), t = before.require r ∧
    before.chosen.selected? r.project.root = some site ∧
    known = before.packagesOf site.project.root ∧ (∃ q, q ∈ packages) ∧
      ∀ q ∈ packages, q ∈ r.packages ∧ ¬ q ∈ known

namespace Solver

variable {σ : Type} {s : Solver σ}
  {expand expand' : Selected → SortedSet String → SortedSet String → Trial → Attempt σ Trial}

theorem require_congr
    (h : ∀ site packages known t, t.AsksAnew site packages known →
      expand site packages known t = expand' site packages known t)
    (site : Selected) (r : Requirement) (t : Trial) :
    s.require expand site r t = s.require expand' site r t := by
  unfold require
  cases hs : t.chosen.selected? r.project.root with
  | none => rfl
  | some sel =>
    dsimp only
    cases selectedConflict? site r sel with
    | some conflict => rfl
    | none =>
      dsimp only
      by_cases hempty : (r.packages.diff (t.packagesOf r.project.root)).isEmpty = true
      · rw [if_pos hempty, if_pos hempty]
      · have hroot := PartialSolution.selected?_root hs
        have hnew : (t.require r).AsksAnew sel (r.packages.diff (t.packagesOf r.project.root))
            (t.packagesOf r.project.root) :=
          ⟨t, r, rfl, hs, by rw [hroot], SortedSet.exists_mem_of_not_isEmpty hempty,
            fun q hq => SortedSet.mem_diff.1 hq⟩
        rw [if_neg hempty, if_neg hempty, h _ _ _ _ hnew]

/-- What an expansion does depends on the expansions within it only where these ask for packages
that were not required before. -/
theorem expandBy_congr
    (h : ∀ site packages known t, t.AsksAnew site packages known →
      expand site packages known t = expand' site packages known t)
    (site : Selected) (packages known : SortedSet String) (t : Trial) :
    s.expandBy expand site packages known t = s.expandBy expand' site packages known t := by
  have hrequire : s.require expand = s.require expand' := by
    funext site r t
    exact require_congr h site r t
  unfold expandBy
  rw [hrequire]

end Solver

/-! ## Searches end -/

namespace Provider

/-- Solving a problem with a provider comes to an end. -/
structure Ends (p : Provider) (problem : Problem) (options : SolveOptions) : Prop where
  /-- There is a solution or a fault in the end. -/
  answers : (∃ solution, (p.solve problem options).1 = .ok solution) ∨
    ∃ fault, (p.solve problem options).1 = .error (.fault fault)
  /-- It is not the limits that end it: with larger ones the end is the same. -/
  unlimited : ∀ limits : Limits, p.world.limits.steps ≤ limits.steps →
    p.world.limits.depth ≤ limits.depth →
      (((p.solver problem options).within limits).run.run.run (Session.start p)).1 =
        (p.solve problem options).1
  /-- The search takes a bounded number of steps, and looks at no more candidates. -/
  bounded : ∀ n search, p.searchAt problem options n = some search →
    n < p.world.limits.steps ∧ search.attempts ≤ n
  /-- It never has the same stack twice when it is about to pick the next project. -/
  progresses : ∀ i j a b, i < j → p.searchAt problem options i = some a →
    p.searchAt problem options j = some b → a.phase = .deciding → b.phase = .deciding →
      a.stack ≠ b.stack
  /-- An expansion starts another only for packages that were not required of the project before. -/
  deepens : ∀ depth expand, (∀ site packages known t, t.AsksAnew site packages known →
      expand site packages known t =
      (p.solver problem options).expand depth site packages known t) →
    ∀ site packages known t, (p.solver problem options).expandBy expand site packages known t =
      (p.solver problem options).expand (depth + 1) site packages known t

theorem solve_answers (p : Provider) (problem : Problem) (options : SolveOptions) :
    (∃ solution, (p.solve problem options).1 = .ok solution) ∨
      ∃ fault, (p.solve problem options).1 = .error (.fault fault) := by
  rcases p.solve_eq problem options with he | he
  · exact .inr ⟨_, he⟩
  · rw [he]
    cases hrun : (p.world.solver problem options p.world.limits).run.outcome with
    | ok solution => exact .inl ⟨solution, rfl⟩
    | error stop =>
      rcases Solver.run_stop hrun with ⟨e, rfl⟩ | ⟨root, conflicts, rfl⟩
      · exact .inr ⟨_, rfl⟩
      · exact .inr ⟨_, rfl⟩

/-- Every problem is solved, or found to have no solution, or meets a fault, after
finitely many steps. -/
theorem solve_ends (p : Provider) (problem : Problem) (options : SolveOptions) :
    p.Ends problem options := by
  have hanswers := p.solve_answers problem options
  refine ⟨hanswers, ?unlimited, ?bounded, ?progresses, ?deepens⟩
  case unlimited =>
    intro limits hsteps hdepth
    have hne : ((p.solver problem options).run.run.run (.start p)).1 ≠ .error .exhausted := by
      intro hexhausted
      have hsolve : (p.solve problem options).1 = .error .exhausted := hexhausted
      rw [hsolve] at hanswers
      simp at hanswers
    have hextends := Solver.run_extends (s := p.solver problem options) hsteps hdepth
    exact congrArg Prod.fst (hextends (.start p) hne)
  case bounded =>
    intro n search h
    have := searchAt_cost h
    exact ⟨by omega, searchAt_attempts h⟩
  case progresses =>
    intro i j a b hij ha hb hpa hpb hstack
    have hlt := searchAt_cost_lt hij ha hb
    rw [Search.cost_congr hpa hpb hstack] at hlt
    exact Nat.lt_irrefl _ hlt
  case deepens =>
    intro depth expand h site packages known t
    exact Solver.expandBy_congr h site packages known t

end Provider

end Depsolve
