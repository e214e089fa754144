import Depsolve.Proofs.Solve.Candidates
import Depsolve.Proofs.Solve.Closure

/-!
# Partial solutions that a search can reach

`Solver.Reached` are the partial solutions built by choosing, for one project after the
other, a candidate that an attempt accepts. A search jumps back only to where it came from
(`Solver.Reached.take`), so whatever order it tries candidates in, its decisions are
always of this kind.

`PartialSolution.Sound` is what they have in common.
-/

namespace Depsolve

variable {u : Universe} {problem : Problem} {options : SolveOptions} {limits : Limits}

/-! ## Attempts -/

namespace PartialSolution

variable {p : PartialSolution} {f : Frame} {v : Version}

/-- The trial of a version as the next decision. -/
def trial (p : PartialSolution) (f : Frame) (v : Version) : Trial :=
  ⟨p.push ⟨f, v, []⟩, []⟩

/-- The decision that would be next, as what is selected. -/
def next (p : PartialSolution) (f : Frame) (v : Version) : Selected :=
  ⟨p.size, f.project, v⟩

theorem selected?_push_added {a b : List Requirement} {root : String} :
    (p.push ⟨f, v, a⟩).selected? root = (p.push ⟨f, v, b⟩).selected? root := by
  by_cases hroot : f.project.root = root
  · cases hs : p.selected? root with
    | some sel => rw [selected?_push_of_some hs, selected?_push_of_some hs]
    | none =>
      subst hroot
      have ha := selected?_push_self (d := ⟨f, v, a⟩) hs
      exact ha.trans (selected?_push_self (d := ⟨f, v, b⟩) hs).symm
  · have ha := selected?_push_of_ne (p := p) (d := ⟨f, v, a⟩) hroot
    exact ha.trans (selected?_push_of_ne (d := ⟨f, v, b⟩) hroot).symm

theorem trial_requirements : (p.trial f v).requirements = p.requirements := by
  simp [trial, Trial.requirements, requirements_push]

theorem trial_packagesOf {root : String} :
    (p.trial f v).packagesOf root = packagesOf (p.requirementsOn root) := by
  rw [Trial.packagesOf, Trial.requirementsOn_eq, trial_requirements]
  rfl

theorem trial_owner : (p.trial f v).owner = p.size := by
  simp only [Trial.owner, trial, size_push]
  omega

theorem trial_selected?_next (h : p.selected? f.project.root = none) :
    (p.trial f v).chosen.selected? f.project.root = some (p.next f v) :=
  selected?_push_self (d := ⟨f, v, []⟩) h

end PartialSolution

namespace Solver

variable (u problem options limits) in
/-- An attempt is the expansion of the packages that are required of the project. -/
theorem attempt_expands (p : PartialSolution) (f : Frame) (v : Version) :
    ∃ res, Expands u problem limits.depth (.expand (p.next f v)
        (packagesOf (p.requirementsOn f.project.root)) .empty) (p.trial f v) res ∧
      ((u.solver problem options limits).attempt p f v).outcome =
        res.map fun end? => end?.map Trial.pending := by
  refine ⟨_, expands u problem options limits _ _ _ _ _, ?_⟩
  have hattempt : (u.solver problem options limits).attempt p f v =
      ((u.solver problem options limits).expand limits.depth (p.next f v)
        (packagesOf (p.requirementsOn f.project.root)) .empty (p.trial f v)) >>=
        fun t => pure t.pending := by
    rw [← PartialSolution.trial_packagesOf (f := f) (v := v)]
    rfl
  rw [hattempt, Attempt.outcome_bind]
  generalize ((u.solver problem options limits).expand limits.depth (p.next f v)
    (packagesOf (p.requirementsOn f.project.root)) .empty (p.trial f v)).outcome = res
  rcases res with _ | _ | _ <;> rfl

theorem attempt_accepts {p : PartialSolution} {f : Frame} {v : Version} {added : List Requirement}
    (h : ((u.solver problem options limits).attempt p f v).outcome = .ok (.ok added)) :
    ∃ t, Adds u problem limits.depth (.expand (p.next f v)
        (packagesOf (p.requirementsOn f.project.root)) .empty) (p.trial f v) t ∧
          t.pending = added := by
  obtain ⟨res, hexp, hres⟩ := attempt_expands u problem options limits p f v
  rw [h] at hres
  rcases res with e | failure | t
  · simp [Except.map] at hres
  · simp [Except.map] at hres
  · exact ⟨t, hexp.adds rfl, by simpa [Except.map, eq_comm] using hres⟩

theorem attempt_fails {p : PartialSolution} {f : Frame} {v : Version} {failure : Failure}
    (h : ((u.solver problem options limits).attempt p f v).outcome = .ok (.error failure)) :
    Expands u problem limits.depth (.expand (p.next f v)
      (packagesOf (p.requirementsOn f.project.root)) .empty) (p.trial f v)
        (.ok (.error failure)) := by
  obtain ⟨res, hexp, hres⟩ := attempt_expands u problem options limits p f v
  rw [h] at hres
  rcases res with e | failure' | t
  · simp [Except.map] at hres
  · obtain rfl : failure = failure' := by simpa [Except.map] using hres
    exact hexp
  · simp [Except.map] at hres

theorem attempt_fits {p : PartialSolution} {f : Frame} {v : Version}
    {packages known : SortedSet String} (h : p.selected? f.project.root = none) :
    Task.Fits u (.expand (p.next f v) packages known) (p.trial f v) :=
  .of_selected? (PartialSolution.trial_selected?_next h)

/-! ## Requirements of the project being solved -/

/-- The base requirements have each import of the problem, with the terms on its owner. -/
theorem baseRequirements_ok {base : List Requirement}
    (h : (u.solver problem options limits).baseRequirements.outcome = .ok base) :
    (∀ path ∈ problem.imports, ∃ root, u.rootOf path = .ok root ∧
        problem.Asked base none problem.manifest root path) ∧
      ∀ r ∈ base, r.owner = none ∧ r.depender = none ∧ r.isInternal = false ∧
        r.project = ⟨r.project.root, (problem.termsFor problem.manifest r.project.root).source⟩ ∧
        r.constraint = (problem.termsFor problem.manifest r.project.root).constraint ∧
        (∃ path, path ∈ r.packages) ∧
        ∀ path ∈ r.packages, path ∈ problem.imports ∧ u.rootOf path = .ok r.project.root := by
  rw [baseRequirements, Run.outcome_bind_eq_ok_iff] at h
  obtain ⟨owned, ho, h⟩ := h
  have howned := ownersOf_outcome u problem options limits problem.imports.toList
  have ho' : ((u.solver problem options limits).ownersOf problem.imports.toList).outcome =
    .ok owned := ho
  rw [ho'] at howned
  obtain rfl : (groupByRoot owned).entries.map (fun x => (⟨none, none,
      ⟨x.1, (problem.termsFor problem.manifest x.1).source⟩,
      (problem.termsFor problem.manifest x.1).constraint, x.2, false⟩ : Requirement)) = base := by
    rw [Run.outcome_pure] at h
    exact Except.ok.inj h
  refine ⟨fun path hp => ?_, fun r hr => ?_⟩
  · obtain ⟨root, hroot⟩ := howned.1 path hp
    obtain ⟨paths, hgroup, hpath⟩ := mem_groupByRoot.2 ((howned.2 root path).2 ⟨hp, hroot⟩)
    exact ⟨root, hroot, _, List.mem_map.2 ⟨_, hgroup, rfl⟩, rfl, rfl, rfl, hpath, rfl⟩
  · obtain ⟨⟨target, paths⟩, hgroup, rfl⟩ := List.mem_map.1 hr
    exact ⟨rfl, rfl, rfl, rfl, rfl, groupByRoot_nonempty hgroup, fun path hpath =>
      (howned.2 target path).1 (mem_groupByRoot.1 ⟨paths, hgroup, hpath⟩)⟩

/-- Finding the base requirements stops only at an import that belongs to nobody. -/
theorem baseRequirements_stop {e : Stop}
    (h : (u.solver problem options limits).baseRequirements.outcome = .error e) :
    ∃ e', e = .ofLookup e' ∧ ∃ path ∈ problem.imports, u.rootOf path = .error e' := by
  rw [baseRequirements, Run.outcome_bind_eq_error_iff] at h
  rcases h with h | ⟨_, -, h⟩
  · have howned := ownersOf_outcome u problem options limits problem.imports.toList
    have h' : ((u.solver problem options limits).ownersOf problem.imports.toList).outcome =
      .error e := h
    rw [h'] at howned
    obtain ⟨path, hpath, e', hroot, he⟩ := howned
    exact ⟨e', he, path, hpath, hroot⟩
  · simp at h

end Solver

/-! ## Partial solutions that can be reached -/

namespace Solver

/-- A project is the one to decide on next, and what is left are the last of its candidates. -/
def Opens (s : Solver Unit) (p : PartialSolution) (project : Project)
    (left : List Version) : Prop :=
  ∃ candidates, (s.choose p).outcome = .ok (.project project candidates) ∧ left <:+ candidates

/-- The partial solutions that come about by choosing candidates that attempts accept. -/
inductive Reached (s : Solver Unit) : PartialSolution → Prop
  | base {base : List Requirement} : s.baseRequirements.outcome = .ok base → Reached s ⟨base, []⟩
  | push {p : PartialSolution} {f : Frame} {v : Version} {added : List Requirement} :
      Reached s p → s.Opens p f.project (v :: f.candidates) →
      (s.attempt p f v).outcome = .ok (.ok added) → Reached s (p.push ⟨f, v, added⟩)

theorem Reached.exists_base {s : Solver Unit} {p : PartialSolution} (h : s.Reached p) :
    ∃ base, s.baseRequirements.outcome = .ok base := by
  induction h with
  | base hb => exact ⟨_, hb⟩
  | push _ _ _ ih => exact ih

/-- A decision was an accepted candidate of the project that was to be decided on. -/
theorem Reached.decision {s : Solver Unit} {p : PartialSolution} (h : s.Reached p) {i : Nat}
    {d : Decision} (hd : p.decision? i = some d) :
    s.Reached (p.take i) ∧
      s.Opens (p.take i) d.frame.project (d.version :: d.frame.candidates) ∧
      (s.attempt (p.take i) d.frame d.version).outcome = .ok (.ok d.added) := by
  induction h generalizing i d with
  | base => simp [PartialSolution.decision?] at hd
  | @push p f v added hp ho ha ih =>
    rcases PartialSolution.decision?_push_eq hd with ⟨hi, hd⟩ | ⟨rfl, rfl⟩
    · rw [PartialSolution.take_push (Nat.le_of_lt hi)]
      exact ih hd
    · rw [PartialSolution.take_push (Nat.le_refl _), PartialSolution.take_size]
      exact ⟨hp, ho, ha⟩

variable {p : PartialSolution} {project : Project} {left : List Version}

/-- The project to decide on next waits, with the candidates that it has then. -/
theorem Opens.waiting {s : Solver Unit} (h : s.Opens p project left) :
    ∃ requirements candidates, (project, requirements) ∈ p.waiting ∧
      (s.candidates project requirements).outcome = .ok candidates ∧ left <:+ candidates := by
  obtain ⟨candidates, hc, hsuffix⟩ := h
  rcases chooseFrom_fits hc with h | ⟨-, requirements, hmem, hcand⟩
  · simp at h
  · exact ⟨requirements, candidates, hmem, hcand, hsuffix⟩

theorem Opens.selected? {s : Solver Unit} (h : s.Opens p project left) :
    p.selected? project.root = none := by
  obtain ⟨requirements, candidates, hmem, -⟩ := h.waiting
  exact (PartialSolution.of_mem_waiting hmem).1

theorem Opens.offers (h : (u.solver problem options limits).Opens p project left) :
    ∃ candidates, u.Offers problem options project (p.requirementsOn project.root) candidates ∧
      left <:+ candidates := by
  obtain ⟨requirements, candidates, hmem, hc, hsuffix⟩ := h.waiting
  obtain ⟨-, rfl, -⟩ := PartialSolution.of_mem_waiting hmem
  exact ⟨candidates, candidates_offers hc, hsuffix⟩

theorem Opens.suffix {s : Solver Unit} {left' : List Version} (h : s.Opens p project left)
    (hl : left' <:+ left) : s.Opens p project left' := by
  obtain ⟨candidates, hc, hsuffix⟩ := h
  exact ⟨candidates, hc, hl.trans hsuffix⟩

end Solver

/-- What all partial solutions that a search can reach have in common. -/
structure PartialSolution.Sound (u : Universe) (problem : Problem) (p : PartialSolution) :
    Prop where
  distinct : (p.decisions.map Decision.root).Nodup
  base : ∀ path ∈ problem.imports, ∃ root, u.rootOf path = .ok root ∧
    problem.Asked p.requirements none problem.manifest root path
  present : ∀ d ∈ p.decisions, u.Has d.frame.project d.version
  accords : p.Accords p.requirements
  /-- Each package that is required of a project that was decided on is provided for. -/
  provided : ∀ sel q, p.selected? sel.project.root = some sel →
    q ∈ packagesOf (p.requirementsOn sel.project.root) →
      u.Provided problem p.requirements sel q
  /-- A requirement that a project has on itself is on one that was decided on, and accepts every
  version. -/
  internal : ∀ r ∈ p.requirements, r.isInternal = true →
    r.constraint = .any ∧ ∃ sel, p.selected? r.project.root = some sel
  culprits : ∀ r ∈ p.requirements, ∀ i ∈ r.culprits, i < p.size
  owned : ∀ r ∈ p.requirements, u.Owns r.project.root
  /-- A project that was decided on is required by another, from the same place. -/
  required : ∀ d ∈ p.decisions, ∃ r ∈ p.requirements, r.isInternal = false ∧
    r.project = d.frame.project

namespace PartialSolution

variable {p : PartialSolution} {f : Frame} {v : Version} {added : List Requirement}

theorem Sound.start {base : List Requirement}
    (h : (u.solver problem options limits).baseRequirements.outcome = .ok base) :
    (⟨base, []⟩ : PartialSolution).Sound u problem := by
  obtain ⟨hasked, hbase⟩ := Solver.baseRequirements_ok h
  have hreq : (⟨base, []⟩ : PartialSolution).requirements = base := by
    simp [requirements]
  have hnone : ∀ root, (⟨base, []⟩ : PartialSolution).selected? root = none := fun root =>
    selected?_eq_none_iff.2 (by simp)
  refine ⟨List.nodup_nil, ?_, by simp, ⟨?_, ?_⟩, ?_, ?_, ?_, ?_, by simp⟩
  · rw [hreq]
    exact hasked
  · intro r _ sel hs
    simp [hnone] at hs
  · rw [hreq]
    intro r hr r' hr' hroot
    rw [(hbase r hr).2.2.2.1, (hbase r' hr').2.2.2.1, hroot]
  · intro sel q hs
    simp [hnone] at hs
  · rw [hreq]
    intro r hr hi
    simp [(hbase r hr).2.2.1] at hi
  · rw [hreq]
    intro r hr i hi
    rcases mem_culprits.1 hi with ho | hd
    · simp [(hbase r hr).1] at ho
    · simp [(hbase r hr).2.1] at hd
  · rw [hreq]
    intro r hr
    obtain ⟨-, -, -, -, -, ⟨path, hpath⟩, hpaths⟩ := hbase r hr
    exact ⟨path, (hpaths path hpath).2⟩

/-- A project that waits is required by another. -/
theorem Sound.required_of_waiting (hp : p.Sound u problem) {project : Project}
    {requirements : List Requirement} (hmem : (project, requirements) ∈ p.waiting) :
    ∃ r ∈ p.requirements, r.isInternal = false ∧ r.project = project := by
  obtain ⟨hs, rfl, r, hr, hproject⟩ := of_mem_waiting hmem
  obtain ⟨hr, hroot⟩ := mem_requirementsOn.1 hr
  refine ⟨r, hr, ?_, hproject⟩
  cases hi : r.isInternal with
  | false => rfl
  | true =>
    obtain ⟨-, sel, hsel⟩ := hp.internal r hr hi
    rw [hroot, hs] at hsel
    simp at hsel

theorem Sound.required_of_opens (hp : p.Sound u problem) {project : Project} {left : List Version}
    (ho : (u.solver problem options limits).Opens p project left) :
    ∃ r ∈ p.requirements, r.isInternal = false ∧ r.project = project := by
  obtain ⟨requirements, -, hmem, -⟩ := ho.waiting
  exact hp.required_of_waiting hmem

theorem Sound.required_of_selected (hp : p.Sound u problem) {root : String} {sel : Selected}
    (hs : p.selected? root = some sel) :
    ∃ r ∈ p.requirements, r.isInternal = false ∧ r.project = sel.project := by
  obtain ⟨d, hd, -, hsel⟩ := selected?_eq_some hs
  rw [hsel]
  exact hp.required d (mem_of_decision? hd)

/-- What is selected once a candidate is decided on was required before, the candidate included. -/
theorem Sound.required_of_push (hp : p.Sound u problem) {left : List Version}
    (ho : (u.solver problem options limits).Opens p f.project left) {root : String}
    {sel : Selected} (hs : (p.push ⟨f, v, added⟩).selected? root = some sel) :
    ∃ r ∈ p.requirements, r.isInternal = false ∧ r.project = sel.project := by
  obtain ⟨d, hd, -, hsel⟩ := selected?_eq_some hs
  rw [hsel]
  rcases decision?_push_eq hd with ⟨-, hd⟩ | ⟨-, rfl⟩
  · exact hp.required d (mem_of_decision? hd)
  · exact hp.required_of_opens ho

/-- A candidate goes with the requirements in force. -/
theorem Sound.accords_trial (hp : p.Sound u problem)
    (ho : (u.solver problem options limits).Opens p f.project (v :: f.candidates)) :
    (p.trial f v).chosen.Accords (p.trial f v).requirements := by
  obtain ⟨requirements, candidates, hmem, hc, hsuffix⟩ := ho.waiting
  obtain ⟨hs, rfl, r₀, hr₀, hproject⟩ := of_mem_waiting hmem
  have hv : v ∈ candidates := hsuffix.subset List.mem_cons_self
  have hadmitted := admittedBy_iff.1 ((Solver.candidates_offers hc).admitted v hv)
  rw [trial_requirements]
  refine ⟨fun r hr sel hsel => ?_, hp.accords.agreed⟩
  by_cases hroot : f.project.root = r.project.root
  · rw [← hroot, trial_selected?_next hs] at hsel
    obtain rfl := Option.some.inj hsel
    refine ⟨hadmitted r (mem_requirementsOn.2 ⟨hr, hroot.symm⟩), ?_⟩
    have hmem₀ := mem_requirementsOn.1 hr₀
    have hproject' : r₀.project = f.project := hproject
    have hagreed := hp.accords.agreed r₀ hmem₀.1 r hr (by rw [hproject', hroot])
    rw [hproject'] at hagreed
    exact hagreed
  · rw [trial, selected?_push_of_ne (d := ⟨f, v, []⟩) hroot] at hsel
    exact hp.accords.admitted r hr sel hsel

theorem Sound.distinct_push (hp : p.Sound u problem) {left : List Version}
    (ho : (u.solver problem options limits).Opens p f.project left) :
    ((p.push ⟨f, v, added⟩).decisions.map Decision.root).Nodup := by
  simp only [PartialSolution.push, List.map_append, List.map_cons, List.map_nil]
  refine List.nodup_append.2 ⟨hp.distinct, List.pairwise_singleton _ _, ?_⟩
  intro a ha b hb
  obtain ⟨d, hd, rfl⟩ := List.mem_map.1 ha
  rw [List.mem_singleton.1 hb]
  exact selected?_eq_none_iff.1 ho.selected? d hd

section Push

variable (ho : (u.solver problem options limits).Opens p f.project (v :: f.candidates))
  (ha : ((u.solver problem options limits).attempt p f v).outcome = .ok (.ok added))
include ho ha

/-- An accepted candidate was expanded to the requirements that are in force once it is decided
on. -/
theorem exists_trial_of_accepts :
    ∃ t, Adds u problem limits.depth (.expand (p.next f v)
        (packagesOf (p.requirementsOn f.project.root)) .empty) (p.trial f v) t ∧
      t.chosen = (p.trial f v).chosen ∧ t.requirements = (p.push ⟨f, v, added⟩).requirements ∧
        ∀ r ∈ added, (p.trial f v).Brings u r := by
  obtain ⟨t, hadds, rfl⟩ := Solver.attempt_accepts ha
  obtain ⟨hchosen, -, hbrings⟩ := hadds.brings (Solver.attempt_fits ho.selected?)
  refine ⟨t, hadds, hchosen, ?_, fun r hr => (hbrings r hr).resolve_left (by simp [trial])⟩
  rw [requirements_push, Trial.requirements, hchosen, trial, requirements_push, List.append_nil]

theorem Sound.accords_push (hp : p.Sound u problem) :
    (p.push ⟨f, v, added⟩).Accords (p.push ⟨f, v, added⟩).requirements := by
  obtain ⟨t, hadds, hchosen, hreq, -⟩ := exists_trial_of_accepts ho ha
  have hacc := hadds.accords (Solver.attempt_fits ho.selected?) (hp.accords_trial ho)
  rw [← hreq]
  refine ⟨fun r hr sel hs => hacc.admitted r hr sel ?_, hacc.agreed⟩
  rw [hchosen, trial, selected?_push_added]
  exact hs

theorem Sound.provided_push (hp : p.Sound u problem) (sel : Selected) (q : String)
    (hs : (p.push ⟨f, v, added⟩).selected? sel.project.root = some sel)
    (hq : q ∈ packagesOf ((p.push ⟨f, v, added⟩).requirementsOn sel.project.root)) :
    u.Provided problem (p.push ⟨f, v, added⟩).requirements sel q := by
  obtain ⟨t, hadds, hchosen, hreq, -⟩ := exists_trial_of_accepts ho ha
  obtain ⟨hserved, hnew⟩ := hadds.provides (Solver.attempt_fits ho.selected?)
    fun q hq => absurd hq SortedSet.not_mem_empty
  obtain ⟨r, hr, hmem⟩ := Depsolve.mem_packagesOf.1 hq
  obtain ⟨hr, hroot⟩ := mem_requirementsOn.1 hr
  rw [← hreq] at hr ⊢
  have hs' : (p.trial f v).chosen.selected? sel.project.root = some sel := by
    rw [trial, selected?_push_added]
    exact hs
  rcases hnew sel q hs' (Trial.mem_packagesOf.2 ⟨r, hr, hroot, hmem⟩) with hold | hnew
  · rw [trial_packagesOf] at hold
    by_cases hroot : f.project.root = sel.project.root
    -- a package that was required of the project before it was decided on
    · obtain rfl : p.next f v = sel := by
        rw [← hroot, trial_selected?_next ho.selected?] at hs'
        exact Option.some.inj hs'
      exact hserved q hold SortedSet.not_mem_empty
    -- a package that was required, and provided for, before
    · rw [trial, selected?_push_of_ne (d := ⟨f, v, []⟩) hroot] at hs'
      refine (hp.provided sel q hs' hold).mono fun r hr => ?_
      rw [hreq]
      exact mem_requirements_push hr
  · exact hnew

theorem Sound.internal_push (hp : p.Sound u problem) (r : Requirement)
    (hr : r ∈ (p.push ⟨f, v, added⟩).requirements) (hi : r.isInternal = true) :
    r.constraint = .any ∧ ∃ sel, (p.push ⟨f, v, added⟩).selected? r.project.root = some sel := by
  obtain ⟨-, -, -, -, hbrings⟩ := exists_trial_of_accepts ho ha
  rw [requirements_push] at hr
  rcases List.mem_append.1 hr with hr | hr
  · obtain ⟨hany, sel, hs⟩ := hp.internal r hr hi
    exact ⟨hany, sel, selected?_push_of_some hs⟩
  · obtain ⟨hany, sel, hs⟩ := (hbrings r hr).internal hi
    refine ⟨hany, sel, ?_⟩
    rw [← hs, trial, selected?_push_added]

theorem Sound.culprits_push (hp : p.Sound u problem) (r : Requirement)
    (hr : r ∈ (p.push ⟨f, v, added⟩).requirements) (i : Nat) (hi : i ∈ r.culprits) :
    i < (p.push ⟨f, v, added⟩).size := by
  obtain ⟨-, -, -, -, hbrings⟩ := exists_trial_of_accepts ho ha
  rw [size_push]
  rw [requirements_push] at hr
  rcases List.mem_append.1 hr with hr | hr
  · exact Nat.lt_succ_of_lt (hp.culprits r hr i hi)
  · have hsize : (p.trial f v).chosen.size = p.size + 1 := size_push
    rcases mem_culprits.1 hi with hi | hi
    · rw [(hbrings r hr).owner, trial_owner] at hi
      obtain rfl := Option.some.inj hi
      exact Nat.lt_succ_self _
    · obtain ⟨sel, hs, hd⟩ := (hbrings r hr).depender
      obtain rfl : sel.index = i := by simpa [hd] using hi
      rw [← hsize]
      exact selected?_lt hs

theorem Sound.owned_push (hp : p.Sound u problem) (r : Requirement)
    (hr : r ∈ (p.push ⟨f, v, added⟩).requirements) : u.Owns r.project.root := by
  obtain ⟨-, -, -, -, hbrings⟩ := exists_trial_of_accepts ho ha
  rw [requirements_push] at hr
  rcases List.mem_append.1 hr with hr | hr
  · exact hp.owned r hr
  · rcases (hbrings r hr).owned with ⟨sel, hs⟩ | howns
    -- a project that was decided on is required by another
    · obtain ⟨r', hr', -, hproject⟩ := hp.required_of_push ho hs
      have hown := hp.owned r' hr'
      rwa [hproject, selected?_root hs] at hown
    · exact howns

/-- A partial solution stays sound when an accepted candidate is decided on. -/
theorem Sound.push (hp : p.Sound u problem) : (p.push ⟨f, v, added⟩).Sound u problem := by
  have hsub : ∀ r ∈ p.requirements, r ∈ (p.push ⟨f, v, added⟩).requirements := fun r hr =>
    mem_requirements_push hr
  refine ⟨hp.distinct_push ho, fun path hpath => ?_, fun d hd => ?_, hp.accords_push ho ha,
    hp.provided_push ho ha, hp.internal_push ho ha, hp.culprits_push ho ha, hp.owned_push ho ha,
    fun d hd => ?_⟩
  · obtain ⟨root, hroot, hasked⟩ := hp.base path hpath
    exact ⟨root, hroot, hasked.mono hsub⟩
  · rcases List.mem_append.1 hd with hd | hd
    · exact hp.present d hd
    · obtain ⟨candidates, hoffers, hsuffix⟩ := ho.offers
      rw [List.mem_singleton.1 hd]
      exact hoffers.present v (hsuffix.subset List.mem_cons_self)
  · rcases List.mem_append.1 hd with hd | hd
    · obtain ⟨r, hr, hi, hproject⟩ := hp.required d hd
      exact ⟨r, hsub r hr, hi, hproject⟩
    · obtain ⟨r₀, hr₀, hi₀, hproject₀⟩ := hp.required_of_opens ho
      rw [List.mem_singleton.1 hd]
      exact ⟨r₀, hsub r₀ hr₀, hi₀, hproject₀⟩

end Push

/-- Every partial solution that a search can reach is sound. -/
theorem sound_of_reached (h : (u.solver problem options limits).Reached p) : p.Sound u problem := by
  induction h with
  | base hb => exact .start hb
  | push _ ho ha ih => exact ih.push ho ha

end PartialSolution

end Depsolve
