import Depsolve.Proofs.Solve.Reached

/-!
# Where requirements on other projects come from

Each requirement on another project stems from what was decided before: its depender is a decision,
some packages required of that decision's project import what it asks for, and the terms are those
of the manifest of that decision's version (`Requirement.StemsFrom`). The requirements of the
project being solved stem from its own imports in the same way (`Requirement.StemsFromProblem`).

An expansion adds no others (`Adds.stems`), so this holds in all partial solutions that
can be reached.
-/

namespace Depsolve

variable {u : Universe} {problem : Problem} {options : SolveOptions} {limits : Limits}

/-- A package that some requirements ask of a selected project imports a path of another project. -/
def Universe.Imported (u : Universe) (problem : Problem) (requirements : List Requirement)
    (sel : Selected) (target path : String) : Prop :=
  u.rootOf path = .ok target ∧ problem.place sel.project.root path = .outside ∧
    ∃ r ∈ requirements, r.project.root = sel.project.root ∧
      ∃ q ∈ r.packages, u.Carries sel.project sel.version q path

theorem Universe.Imported.mono {requirements requirements' : List Requirement} {sel : Selected}
    {target path : String} (hsub : ∀ r ∈ requirements, r ∈ requirements')
    (h : u.Imported problem requirements sel target path) :
    u.Imported problem requirements' sel target path := by
  obtain ⟨howner, hplace, r, hr, h⟩ := h
  exact ⟨howner, hplace, r, hsub r hr, h⟩

namespace Requirement

/-- A requirement is on the terms of a selected project, for paths that packages required of that
project import. -/
structure StemsFrom (u : Universe) (problem : Problem) (requirements : List Requirement)
    (sel : Selected) (r : Requirement) : Prop where
  depender : r.depender = some sel.index
  terms : ∃ manifest, u.manifestOf sel.project sel.version = .ok manifest ∧
    r.project.source = (problem.termsFor manifest r.project.root).source ∧
      r.constraint = (problem.termsFor manifest r.project.root).constraint
  nonempty : ∃ path, path ∈ r.packages
  imported : ∀ path ∈ r.packages, u.Imported problem requirements sel r.project.root path

/-- A requirement is on the terms of the project being solved, for paths that it imports. -/
structure StemsFromProblem (u : Universe) (problem : Problem) (r : Requirement) : Prop where
  depender : r.depender = none
  source : r.project.source = (problem.termsFor problem.manifest r.project.root).source
  constraint : r.constraint = (problem.termsFor problem.manifest r.project.root).constraint
  nonempty : ∃ path, path ∈ r.packages
  imported : ∀ path ∈ r.packages, path ∈ problem.imports ∧ u.rootOf path = .ok r.project.root

theorem StemsFrom.mono {requirements requirements' : List Requirement} {sel : Selected}
    {r : Requirement} (hsub : ∀ r ∈ requirements, r ∈ requirements')
    (h : r.StemsFrom u problem requirements sel) : r.StemsFrom u problem requirements' sel :=
  ⟨h.depender, h.terms, h.nonempty, fun path hpath => (h.imported path hpath).mono hsub⟩

end Requirement

/-- What a part of an expansion is founded on. -/
def Task.Founded (u : Universe) (problem : Problem) : Task → Trial → Prop
  | .expand site _ known, t => ∀ q ∈ known, q ∈ t.packagesOf site.project.root
  | .requireAll site manifest groups, t => u.manifestOf site.project site.version = .ok manifest ∧
      ∀ target paths, (target, paths) ∈ groups → (∃ path, path ∈ paths) ∧
        ∀ path ∈ paths, u.Imported problem t.requirements site target path
  | .require site r, t => r.StemsFrom u problem t.requirements site

/-- The requirements on other projects that a later trial has in addition stem from decisions. -/
def Trial.StemsTo (u : Universe) (problem : Problem) (t t' : Trial) : Prop :=
  ∀ r ∈ t'.pending, r ∈ t.pending ∨ (r.isInternal = false → ∃ sel,
    t.chosen.selected? sel.project.root = some sel ∧ r.StemsFrom u problem t'.requirements sel)

theorem Trial.StemsTo.trans {t t1 t' : Trial} (h1 : t.StemsTo u problem t1)
    (h2 : t1.StemsTo u problem t') (hchosen : t1.chosen = t.chosen)
    (hsub : ∀ r ∈ t1.requirements, r ∈ t'.requirements) : t.StemsTo u problem t' := by
  intro r hr
  rcases h2 r hr with hr | hnew
  · refine (h1 r hr).imp_right fun h hi => ?_
    obtain ⟨sel, hs, hstems⟩ := h hi
    exact ⟨sel, hs, hstems.mono hsub⟩
  · rw [hchosen] at hnew
    exact .inr hnew

theorem Trial.stemsTo_require {t : Trial} {site : Selected} {r : Requirement}
    (hsite : t.chosen.selected? site.project.root = some site)
    (h : r.StemsFrom u problem t.requirements site) : t.StemsTo u problem (t.require r) := by
  intro x hx
  rcases List.mem_append.1 hx with hx | hx
  · exact .inl hx
  · rw [List.mem_singleton.1 hx]
    exact .inr fun _ => ⟨site, hsite, h.mono fun y hy => Trial.mem_requirements_require.2 (.inl hy)⟩

/-- The requirements of a footprint's packages found the groups of the imports that lead out of
it. -/
theorem Task.Founded.walked {site : Selected} {packages known : SortedSet String} {t : Trial}
    {tree : PackageTree} {manifest : Manifest} {f : Footprint}
    {groups : List (String × SortedSet String)}
    (h : Task.Founded u problem (.expand site packages known) t)
    (ht : u.packagesOf site.project site.version = .ok tree)
    (hm : u.manifestOf site.project site.version = .ok manifest)
    (hf : tree.footprint? (problem.place site.project.root) packages known = .ok f)
    (hg : u.Groups problem site.project.root f.external groups) :
    Task.Founded u problem (.requireAll site manifest groups)
      (t.requireInternal site (f.packages.diff known)) := by
  refine ⟨hm, fun target paths hgroup => ⟨hg.nonempty hgroup, fun path hpath => ?_⟩⟩
  obtain ⟨hexternal, howner⟩ := hg.sound hgroup path hpath
  obtain ⟨q, hq, imports, hi, hmem, hplace⟩ := PackageTree.footprint_ok_external hf path hexternal
  have hrequired : q ∈ (t.requireInternal site (f.packages.diff known)).packagesOf
      site.project.root := by
    rw [Trial.mem_packagesOf_requireInternal]
    by_cases hk : q ∈ known
    · exact .inl (h q hk)
    · exact .inr ⟨rfl, SortedSet.mem_diff.2 ⟨hq, hk⟩⟩
  obtain ⟨r, hr, hroot, hq⟩ := Trial.mem_packagesOf.1 hrequired
  exact ⟨howner, hplace, r, hr, hroot, q, hq, tree, imports, ht, hi, hmem⟩

/-- What an expansion requires of other projects stems from decisions. -/
theorem Adds.stems {n : Nat} {task : Task} {t t' : Trial} (h : Adds u problem n task t t')
    (hfits : task.Fits u t) (hfounded : task.Founded u problem t) : t.StemsTo u problem t' := by
  induction h with
  | @walked n site packages known t tree manifest f groups t' hp hm hf hg h ih =>
    have hstems := ih (hfits.walked hg) (hfounded.walked hp hm hf hg)
    intro r hr
    rcases hstems r hr with hold | hnew
    -- what the project requires of itself stems from nothing else
    · unfold Trial.requireInternal at hold
      split at hold
      · exact .inl hold
      · rcases List.mem_append.1 hold with hold | hold
        · exact .inl hold
        · rw [List.mem_singleton.1 hold]
          exact .inr fun hi => by simp [Trial.internal] at hi
    · rw [Trial.requireInternal_chosen] at hnew
      exact .inr hnew
  | done => exact fun r hr => .inl hr
  | @next n site manifest target packages rest t t1 t' h1 h2 ih1 ih2 =>
    obtain ⟨hm, hgroups⟩ := hfounded
    obtain ⟨hnonempty, himported⟩ := hgroups target packages List.mem_cons_self
    have hstems1 := ih1 hfits.first ⟨rfl, ⟨manifest, hm, rfl, rfl⟩, hnonempty, himported⟩
    have hchosen := (h1.brings hfits.first).1
    have hfits2 : Task.Fits u (.requireAll site manifest rest) t1 := hfits.rest hchosen
    have hsub1 : ∀ r ∈ t.requirements, r ∈ t1.requirements :=
      fun r => h1.mem_requirements hfits.first
    have hfounded2 : Task.Founded u problem (.requireAll site manifest rest) t1 := by
      refine ⟨hm, fun target' paths hmem => ?_⟩
      obtain ⟨hne, himp⟩ := hgroups target' paths (List.mem_cons_of_mem _ hmem)
      exact ⟨hne, fun path hpath => (himp path hpath).mono hsub1⟩
    exact hstems1.trans (ih2 hfits2 hfounded2) hchosen fun r => h2.mem_requirements hfits2
  | waits => exact Trial.stemsTo_require hfits.selected hfounded
  | known => exact Trial.stemsTo_require hfits.selected hfounded
  | @fresh n site r t sel q t' hs hc hq hn h ih =>
    have hroot := PartialSolution.selected?_root hs
    have hfits' : Task.Fits u (.expand sel (r.packages.diff (t.packagesOf r.project.root))
        (t.packagesOf r.project.root)) (t.require r) := .of_selected? hs
    have hfounded' : Task.Founded u problem
        (.expand sel (r.packages.diff (t.packagesOf r.project.root))
        (t.packagesOf r.project.root)) (t.require r) := fun q hq =>
      Trial.mem_packagesOf_require.2 (.inl (hroot ▸ hq))
    exact (Trial.stemsTo_require hfits.selected hfounded).trans (ih hfits' hfounded') rfl
      fun r => h.mem_requirements hfits'

/-! ## Partial solutions that can be reached -/

/-- Each requirement on another project stems from the problem, or from a decision. -/
def PartialSolution.Rooted (u : Universe) (problem : Problem) (p : PartialSolution) : Prop :=
  ∀ r ∈ p.requirements, r.isInternal = false → r.StemsFromProblem u problem ∨
    ∃ sel, p.selected? sel.project.root = some sel ∧ r.StemsFrom u problem p.requirements sel

theorem PartialSolution.rooted_of_reached {p : PartialSolution}
    (h : (u.solver problem options limits).Reached p) : p.Rooted u problem := by
  induction h with
  | @base base hb =>
    intro r hr _
    have hr' : r ∈ base := by simpa [requirements] using hr
    obtain ⟨-, hdepender, -, hproject, hconstraint, hnonempty, hpaths⟩ :=
      (Solver.baseRequirements_ok hb).2 r hr'
    exact .inl ⟨hdepender, congrArg Project.source hproject, hconstraint, hnonempty, hpaths⟩
  | @push p f v added hp ho ha ih =>
    obtain ⟨t, hadds, hchosen, hreq, -⟩ := exists_trial_of_accepts ho ha
    have hstems := hadds.stems (Solver.attempt_fits ho.selected?)
      fun q hq => absurd hq SortedSet.not_mem_empty
    have hsub : ∀ r ∈ p.requirements, r ∈ (p.push ⟨f, v, added⟩).requirements := fun r hr =>
      mem_requirements_push hr
    intro r hr hi
    rw [← hreq] at hr hsub ⊢
    rcases List.mem_append.1 hr with hold | hnew
    · rw [hchosen, trial, requirements_push, List.append_nil] at hold
      rcases ih r hold hi with hproblem | ⟨sel, hs, hstem⟩
      · exact .inl hproblem
      · exact .inr ⟨sel, selected?_push_of_some hs, hstem.mono hsub⟩
    · obtain ⟨sel, hs, hstem⟩ := ((hstems r hnew).resolve_left (by simp [trial])) hi
      refine .inr ⟨sel, ?_, hstem⟩
      rw [trial, selected?_push_added] at hs
      exact hs

end Depsolve
