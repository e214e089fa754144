import Depsolve.Proofs.Solve.Reached

/-!
# What choices depend on

What to decide on next, and whether a version is accepted, depends on the versions that were chosen
and on the requirements that came with them; it does not depend on what else could be chosen for a
project, nor on what was blamed. `PartialSolution.bare` leaves that out.
-/

namespace Depsolve

/-- The decision, without what else could be chosen and what was blamed. -/
def Decision.bare (d : Decision) : Decision :=
  ⟨.start d.frame.project [], d.version, d.added⟩

namespace PartialSolution

variable {p : PartialSolution}

/-- The partial solution, without what else could be chosen and what was blamed. -/
def bare (p : PartialSolution) : PartialSolution :=
  { p with decisions := p.decisions.map Decision.bare }

@[simp]
theorem size_bare : p.bare.size = p.size := by
  simp [bare, size]

@[simp]
theorem take_bare (n : Nat) : p.bare.take n = (p.take n).bare := by
  simp [bare, take, List.map_take]

@[simp]
theorem decision?_bare (i : Nat) : p.bare.decision? i = (p.decision? i).map Decision.bare := by
  simp [bare, decision?]

@[simp]
theorem requirements_bare : p.bare.requirements = p.requirements := by
  simp only [bare, requirements, List.flatMap_map]
  rfl

@[simp]
theorem requirementsOn_bare (root : String) :
    p.bare.requirementsOn root = p.requirementsOn root := by
  simp [requirementsOn]

@[simp]
theorem index?_bare (root : String) : p.bare.index? root = p.index? root := by
  simp only [bare, index?, List.findIdx?_map]
  rfl

@[simp]
theorem selected?_bare (root : String) : p.bare.selected? root = p.selected? root := by
  simp only [selected?, index?_bare, decision?_bare]
  cases p.index? root with
  | none => rfl
  | some i =>
    simp only [Option.bind_eq_bind, Option.bind_some]
    cases p.decision? i <;> rfl

@[simp]
theorem waiting_bare : p.bare.waiting = p.waiting := by
  simp only [waiting, waitingRoots, requirements_bare, requirementsOn_bare, index?_bare]

theorem dependerLabel_bare (problem : Problem) (r : Requirement) :
    problem.dependerLabel p.bare r = problem.dependerLabel p r := by
  unfold Problem.dependerLabel
  cases r.depender with
  | none => rfl
  | some i =>
    simp only [Option.bind_some, decision?_bare]
    cases p.decision? i <;> rfl

theorem lockedProject_bare {d : Decision} : p.bare.lockedProject d.bare = p.lockedProject d := by
  simp only [lockedProject, requirementsOn_bare]
  rfl

theorem map_lockedProject_bare :
    p.bare.decisions.map p.bare.lockedProject = p.decisions.map p.lockedProject := by
  have hmap : p.bare.decisions = p.decisions.map Decision.bare := rfl
  rw [hmap, List.map_map]
  exact List.map_congr_left fun d _ => lockedProject_bare

end PartialSolution

/-! ## Expansions -/

namespace Trial

variable {t : Trial}

/-- The trial, without what else could be chosen and what was blamed. -/
def bare (t : Trial) : Trial :=
  { t with chosen := t.chosen.bare }

@[simp]
theorem requirementsOn_bare (root : String) :
    t.bare.requirementsOn root = t.requirementsOn root := by
  simp [bare, requirementsOn]

@[simp]
theorem packagesOf_bare (root : String) : t.bare.packagesOf root = t.packagesOf root := by
  simp [packagesOf]

@[simp]
theorem owner_bare : t.bare.owner = t.owner := by
  simp [bare, owner]

@[simp]
theorem missingPackage_bare (site : Selected) (package : String) :
    t.bare.missingPackage site package = t.missingPackage site package := by
  simp [missingPackage]

@[simp]
theorem internal_bare (site : Selected) (packages : SortedSet String) :
    t.bare.internal site packages = t.internal site packages := by
  simp [internal]

@[simp]
theorem external_bare (site : Selected) (target : String) (terms : Terms)
    (packages : SortedSet String) :
    t.bare.external site target terms packages = t.external site target terms packages := by
  simp [external]

theorem require_bare (r : Requirement) : t.bare.require r = (t.require r).bare := rfl

@[simp]
theorem waitingFailure?_bare (problem : Problem) (site : Selected) (r : Requirement) :
    waitingFailure? problem t.bare site r = waitingFailure? problem t site r := by
  simp only [waitingFailure?, requirementsOn_bare]
  congr 1
  funext other
  rw [show t.bare.chosen = t.chosen.bare from rfl, PartialSolution.dependerLabel_bare]

end Trial

/-- How a part of an expansion ends, without what else could be chosen and what was blamed. -/
def bareEnd (res : Except Stop (Except Failure Trial)) : Except Stop (Except Failure Trial) :=
  res.map fun end? => end?.map Trial.bare

namespace Solver

variable {s : Solver Unit}

theorem require_bare {expand : Selected → SortedSet String → SortedSet String → Trial →
    Attempt Unit Trial} (h : ∀ site packages known t,
      (expand site packages known t.bare).outcome = bareEnd (expand site packages known t).outcome)
    (site : Selected) (r : Requirement) (t : Trial) :
    (s.require expand site r t.bare).outcome = bareEnd (s.require expand site r t).outcome := by
  unfold require
  rw [show t.bare.chosen.selected? r.project.root = t.chosen.selected? r.project.root from
    PartialSolution.selected?_bare _]
  cases t.chosen.selected? r.project.root with
  | none =>
    simp only [Trial.waitingFailure?_bare]
    cases waitingFailure? s.problem t site r <;> rfl
  | some sel =>
    simp only [Trial.packagesOf_bare, Trial.require_bare]
    cases selectedConflict? site r sel with
    | some c => rfl
    | none =>
      dsimp only
      split
      · rfl
      · rw [Attempt.outcome_tryCatch, Attempt.outcome_tryCatch, h]
        rcases (expand sel (r.packages.diff (t.packagesOf r.project.root))
          (t.packagesOf r.project.root) (t.require r)).outcome with _ | _ | _ <;> rfl

theorem foldlM_bare {γ : Type} {f : Trial → γ → Attempt Unit Trial}
    (h : ∀ t x, (f t.bare x).outcome = bareEnd (f t x).outcome) (l : List γ) (t : Trial) :
    (l.foldlM f t.bare).outcome = bareEnd (l.foldlM f t).outcome := by
  induction l generalizing t with
  | nil => rfl
  | cons x l ih =>
    rw [List.foldlM_cons, List.foldlM_cons, Attempt.outcome_bind, Attempt.outcome_bind, h]
    rcases (f t x).outcome with e | failure | t'
    · rfl
    · rfl
    · exact ih t'

/-- An expansion does not depend on what else could be chosen and what was blamed. -/
theorem expand_bare (n : Nat) (site : Selected) (packages known : SortedSet String) (t : Trial) :
    (s.expand n site packages known t.bare).outcome =
      bareEnd (s.expand n site packages known t).outcome := by
  -- on the depth: below, an expansion of the bare trial ends as that of the trial
  induction n generalizing site packages known t with
  | zero => rfl
  | succ n ih =>
    have hgroups := fun manifest => foldlM_bare (f := fun t (x : String × SortedSet String) =>
      s.require (s.expand n) site
        (t.external site x.1 (s.problem.termsFor manifest x.1) x.2) t)
      (fun t x => by rw [Trial.external_bare]; exact require_bare ih site _ t)
    rw [expand, expand, expandBy, expandBy, Attempt.outcome_bind, Attempt.outcome_bind]
    rcases (inquire (ask (s.source.packagesOf site.project site.version)) :
      Attempt Unit PackageTree).outcome with e | failure | tree
    · rfl
    · rfl
    · dsimp only
      rw [Attempt.outcome_bind, Attempt.outcome_bind]
      rcases (inquire (ask (s.source.manifestOf site.project site.version)) :
        Attempt Unit Manifest).outcome with e | failure | manifest
      · rfl
      · rfl
      · dsimp only
        cases tree.footprint? (s.problem.place site.project.root) packages known with
        | error package =>
          dsimp only
          rw [Trial.missingPackage_bare]
          rfl
        | ok f =>
          dsimp only
          rw [Attempt.outcome_bind, Attempt.outcome_bind]
          rcases (inquire (s.ownersOf f.external.toList) :
            Attempt Unit (List (String × String))).outcome with e | failure | owned
          · rfl
          · rfl
          · dsimp only
            rw [Trial.internal_bare, Trial.require_bare, ← apply_ite Trial.bare]
            exact hgroups manifest _ _

/-- What to decide on next does not depend on what else could be chosen and what was blamed. -/
theorem choose_congr {p q : PartialSolution} (h : p.bare = q.bare) : s.choose p = s.choose q := by
  rw [choose, choose, ← PartialSolution.waiting_bare, h, PartialSolution.waiting_bare]

/-- Whether a version is accepted does not depend on what else could be chosen and what was
blamed. -/
theorem attempt_congr {p q : PartialSolution} (h : p.bare = q.bare) {f f' : Frame}
    (hf : f.project = f'.project) (v : Version) :
    (s.attempt p f v).outcome = (s.attempt q f' v).outcome := by
  have hend : ∀ (p : PartialSolution) (f : Frame), (s.attempt p f v).outcome =
      (bareEnd (s.expand s.limits.depth ⟨p.size, f.project, v⟩
        ((Trial.mk (p.push ⟨f, v, []⟩) []).packagesOf f.project.root) .empty
        ⟨p.push ⟨f, v, []⟩, []⟩).outcome).map fun end? => end?.map Trial.pending := by
    intro p f
    rw [attempt, Attempt.outcome_bind]
    rcases (s.expand s.limits.depth ⟨p.size, f.project, v⟩
      ((Trial.mk (p.push ⟨f, v, []⟩) []).packagesOf f.project.root) .empty
      ⟨p.push ⟨f, v, []⟩, []⟩).outcome with _ | _ | _ <;> rfl
  have hsize : p.size = q.size := by
    rw [← PartialSolution.size_bare, h, PartialSolution.size_bare]
  have htrial : (Trial.mk (p.push ⟨f, v, []⟩) []).bare =
      (Trial.mk (q.push ⟨f', v, []⟩) []).bare := by
    simp only [PartialSolution.bare, PartialSolution.mk.injEq] at h
    simp only [Trial.bare, PartialSolution.bare, PartialSolution.push, List.map_append,
      List.map_cons, List.map_nil, Decision.bare, h.1, h.2, hf]
  rw [hend, hend, ← expand_bare, ← expand_bare, htrial, hsize, hf, ← Trial.packagesOf_bare, htrial,
    Trial.packagesOf_bare]

end Solver

end Depsolve
