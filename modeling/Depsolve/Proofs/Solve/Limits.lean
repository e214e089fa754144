import Depsolve.Proofs.Source.Mirror

/-!
# Limits only cut runs short

A run that is not exhausted does not notice its limits: with larger ones it takes the same course.
So a limit that is out of reach may be thought of as not being there.

`Run.Extends` compares two computations of which the first may go further, and is carried through
all that a solver does, up to `Solver.run_extends`.
-/

namespace Depsolve

variable {σ α β γ : Type}

/-- A computation does the same as another, unless that is exhausted. -/
def Run.Extends (m n : Run σ α) : Prop :=
  ∀ s, (n.run.run s).1 ≠ .error .exhausted → m.run.run s = n.run.run s

/-- An attempt does the same as another, unless that is exhausted. -/
def Attempt.Extends (m n : Attempt σ α) : Prop :=
  Run.Extends m.run n.run

namespace Run.Extends

theorem refl (m : Run σ α) : Run.Extends m m :=
  fun _ _ => rfl

/-- Whatever it is compared with, an exhausted computation is extended. -/
theorem exhausted (m : Run σ α) : Run.Extends m (throw .exhausted) :=
  fun _ h => absurd rfl h

theorem bind {m n : Run σ α} {f g : α → Run σ β} (h : Run.Extends m n)
    (hf : ∀ a, Run.Extends (f a) (g a)) : Run.Extends (m >>= f) (n >>= g) := by
  intro s hs
  rw [run_bind_eq] at hs ⊢
  rw [run_bind_eq]
  rcases hn : n.run.run s with ⟨r, t⟩
  rw [hn] at hs
  cases r with
  | ok a =>
    rw [h s (by simp [hn]), hn]
    exact hf a t hs
  | error e =>
    have hne : (n.run.run s).1 ≠ .error .exhausted := by
      rw [hn]
      intro he
      exact hs (by simpa using he)
    rw [h s hne, hn]

end Run.Extends

namespace Attempt.Extends

theorem refl (m : Attempt σ α) : Attempt.Extends m m :=
  Run.Extends.refl m.run

theorem bind {m n : Attempt σ α} {f g : α → Attempt σ β} (h : Attempt.Extends m n)
    (hf : ∀ a, Attempt.Extends (f a) (g a)) : Attempt.Extends (m >>= f) (n >>= g) := by
  unfold Attempt.Extends
  rw [ExceptT.run_bind, ExceptT.run_bind]
  refine Run.Extends.bind h fun r => ?_
  cases r with
  | ok a => exact hf a
  | error e => exact Run.Extends.refl _

theorem tryCatch {m n : Attempt σ α} (h : Attempt.Extends m n) (f : Failure → Attempt σ α) :
    Attempt.Extends (MonadExcept.tryCatch m f) (MonadExcept.tryCatch n f) :=
  Run.Extends.bind h fun _ => Run.Extends.refl _

theorem foldlM {f g : α → γ → Attempt σ α} (h : ∀ a c, Attempt.Extends (f a c) (g a c)) (l : List γ)
    (a : α) : Attempt.Extends (l.foldlM f a) (l.foldlM g a) := by
  induction l generalizing a with
  | nil => exact refl _
  | cons c l ih =>
    rw [List.foldlM_cons, List.foldlM_cons]
    exact bind (h a c) fun b => ih b

end Attempt.Extends

namespace Solver

/-- The solver under other limits. -/
def within (s : Solver σ) (limits : Limits) : Solver σ :=
  { s with limits }

variable {s : Solver σ} {limits : Limits}

theorem require_extends
    {expand expand' : Selected → SortedSet String → SortedSet String → Trial → Attempt σ Trial}
    (h : ∀ site packages known t,
      Attempt.Extends (expand site packages known t) (expand' site packages known t))
    (site : Selected) (r : Requirement) (t : Trial) :
    Attempt.Extends ((s.within limits).require expand site r t) (s.require expand' site r t) := by
  simp only [require, within]
  cases t.chosen.selected? r.project.root with
  | none => exact .refl _
  | some sel =>
    simp only
    split
    · exact .refl _
    · split
      · exact .refl _
      · exact .tryCatch (h _ _ _ _) _

/-- Expansions that may nest deeper go no other way than those that are deep enough. -/
theorem expand_extends {depth depth' : Nat} (hle : depth ≤ depth') (site : Selected)
    (packages known : SortedSet String) (t : Trial) :
    Attempt.Extends ((s.within limits).expand depth' site packages known t)
      (s.expand depth site packages known t) := by
  induction depth generalizing depth' site packages known t with
  | zero => exact fun _ h => absurd rfl h
  | succ depth ih =>
    obtain ⟨depth', rfl⟩ : ∃ d, depth' = d + 1 := ⟨depth' - 1, by omega⟩
    rw [expand, expand, expandBy, expandBy]
    refine .bind (.refl _) fun tree => .bind (.refl _) fun manifest => ?_
    have hproblem : (s.within limits).problem = s.problem := rfl
    rw [hproblem]
    cases tree.footprint? (s.problem.place site.project.root) packages known with
    | error package => exact .refl _
    | ok footprint =>
      refine .bind (.refl _) fun owned => .foldlM (fun t group => ?_) _ _
      exact require_extends (fun _ _ _ _ => ih (by omega) _ _ _ _) site _ t

theorem attempt_extends (hdepth : s.limits.depth ≤ limits.depth) (chosen : PartialSolution)
    (frame : Frame) (version : Version) :
    Attempt.Extends ((s.within limits).attempt chosen frame version)
      (s.attempt chosen frame version) :=
  .bind (expand_extends hdepth _ _ _ _) fun _ => .refl _

theorem chooseFrom_within (best : Option (Project × List Version))
    (waiting : List (Project × List Requirement)) :
    (s.within limits).chooseFrom best waiting = s.chooseFrom best waiting := by
  induction waiting generalizing best with
  | nil => rfl
  | cons entry rest ih =>
    have hcandidates : (s.within limits).candidates entry.1 entry.2 =
        s.candidates entry.1 entry.2 := rfl
    simp only [chooseFrom, hcandidates, ih]

/-- What to decide on does not depend on the limits. -/
theorem decide_within (search : Search) : (s.within limits).decide search = s.decide search := by
  have hchoose : (s.within limits).choose search.chosen = s.choose search.chosen :=
    chooseFrom_within none search.chosen.waiting
  simp only [decide, hchoose]
  rfl

theorem step_extends (hdepth : s.limits.depth ≤ limits.depth) (search : Search) :
    Run.Extends ((s.within limits).step search) (s.step search) := by
  unfold step
  split
  · rw [decide_within]
    exact .refl _
  · split
    · exact .refl _
    · refine .bind ?_ fun _ => .refl _
      simp only [tryCandidate]
      split
      · exact .refl _
      · exact .bind (attempt_extends hdepth _ _ _) fun _ => .refl _

theorem iterate_extends (hdepth : s.limits.depth ≤ limits.depth) {n n' : Nat} (hle : n ≤ n')
    (search : Search) : Run.Extends ((s.within limits).iterate n' search) (s.iterate n search) := by
  induction n generalizing n' search with
  | zero => exact .exhausted _
  | succ n ih =>
    obtain ⟨n', rfl⟩ : ∃ m, n' = m + 1 := ⟨n' - 1, by omega⟩
    refine .bind (step_extends hdepth search) fun progress => ?_
    cases progress with
    | complete search => exact .refl _
    | ongoing search => exact ih (by omega) search

/-- A run under larger limits takes the same course as one that is not exhausted. -/
theorem run_extends (hsteps : s.limits.steps ≤ limits.steps)
    (hdepth : s.limits.depth ≤ limits.depth) : Run.Extends (s.within limits).run s.run :=
  .bind (.refl _) fun base => .bind (iterate_extends hdepth hsteps (.start base)) fun _ => .refl _

end Solver

end Depsolve
