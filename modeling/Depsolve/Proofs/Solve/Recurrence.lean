import Depsolve.Proofs.Solve.Blame

/-!
# When failures recur

A candidate that failed beside some decisions fails beside others as well, if those to blame are
repeated there (`PartialSolution.Repeats`): a partial solution that has accepted the candidate could
not have, for what it requires of its projects leads to the same failure (`Expands.not_repeated`).

The places of projects have to be the same for that (`PartialSolution.PlacedAs`). The decisions to
blame for a failure tell versions and not places; and where a project is wanted from two places, the
decisions to blame do not include those that pulled in the package that wants it.
-/

namespace Depsolve

variable {u : Universe} {problem : Problem} {options : SolveOptions} {limits : Limits}
  {requirements : List Requirement}

/-! ## Places -/

/-- Some requirements are on a project from the place that it has here. -/
def Project.PlacedAs (requirements : List Requirement) (project : Project) : Prop :=
  ∀ r ∈ requirements, r.project.root = project.root → r.project.location = project.location

/-- A version wants a project: one of its packages imports from it, and the source is that of its
manifest or of an override. -/
def Universe.Wants (u : Universe) (problem : Problem) (sel : Selected) (project : Project) : Prop :=
  ∃ manifest package path, u.manifestOf sel.project sel.version = .ok manifest ∧
    u.Carries sel.project sel.version package path ∧
    problem.place sel.project.root path = .outside ∧
      u.rootOf path = .ok project.root ∧
      project.source = (problem.termsFor manifest project.root).source

/-- Some requirements are on projects from the places from which a partial solution requires them,
and from which the versions that it has decided on want them. -/
structure PartialSolution.PlacedAs (u : Universe) (problem : Problem)
    (requirements : List Requirement) (p : PartialSolution) : Prop where
  required : ∀ r ∈ p.requirements, r.project.PlacedAs requirements
  wanted : ∀ root sel, p.selected? root = some sel → ∀ project, u.Wants problem sel project →
    project.PlacedAs requirements

/-- The same of a trial, and of what it has selected. -/
structure Trial.PlacedAs (u : Universe) (problem : Problem)
    (requirements : List Requirement) (t : Trial) : Prop where
  chosen : t.chosen.PlacedAs u problem requirements
  selected : ∀ root sel, t.chosen.selected? root = some sel → sel.project.PlacedAs requirements
  pending : ∀ r ∈ t.pending, r.project.PlacedAs requirements

namespace Trial.PlacedAs

variable {t : Trial}

theorem require (h : t.PlacedAs u problem requirements) {r : Requirement}
    (hr : r.project.PlacedAs requirements) : (t.require r).PlacedAs u problem requirements := by
  refine ⟨h.chosen, h.selected, fun r' hr' => ?_⟩
  rcases mem_pending_require.1 hr' with hr' | rfl
  · exact h.pending r' hr'
  · exact hr

theorem requireInternal (h : t.PlacedAs u problem requirements) {site : Selected}
    (hsite : t.chosen.selected? site.project.root = some site) {added : SortedSet String} :
    (t.requireInternal site added).PlacedAs u problem requirements := by
  unfold Trial.requireInternal
  split
  · exact h
  · exact h.require (h.selected _ _ hsite)

theorem requirements_placedAs (h : t.PlacedAs u problem requirements) :
    ∀ r ∈ t.requirements, r.project.PlacedAs requirements := by
  intro r hr
  rcases List.mem_append.1 hr with hr | hr
  · exact h.chosen.required r hr
  · exact h.pending r hr

end Trial.PlacedAs

/-- What a part of an expansion requires of others, its version wants. -/
def Task.Wants (u : Universe) (problem : Problem) : Task → Prop
  | .expand .. => True
  | .requireAll site manifest groups => ∀ target paths, (target, paths) ∈ groups →
      u.Wants problem site ⟨target, (problem.termsFor manifest target).source⟩
  | .require site r => u.Wants problem site r.project

/-- A version wants the owners of the imports that lead out of its packages. -/
theorem Universe.Groups.wants {site : Selected} {packages known : SortedSet String}
    {tree : PackageTree} {manifest : Manifest} {f : Footprint}
    {groups : List (String × SortedSet String)}
    (hg : u.Groups problem site.project.root f.external groups)
    (hp : u.packagesOf site.project site.version = .ok tree)
    (hm : u.manifestOf site.project site.version = .ok manifest)
    (hf : tree.footprint? (problem.place site.project.root) packages known = .ok f) :
    Task.Wants u problem (.requireAll site manifest groups) := by
  intro target paths hmem
  obtain ⟨path, hpath⟩ := hg.nonempty hmem
  obtain ⟨hexternal, hroot⟩ := hg.sound hmem path hpath
  obtain ⟨package, -, imports, hi, himported, hplace⟩ :=
    PackageTree.footprint_ok_external hf path hexternal
  exact ⟨manifest, package, path, hm, ⟨tree, imports, hp, hi, himported⟩, hplace, hroot, rfl⟩

/-- The requirements that an expansion adds are on projects that its versions want. -/
theorem Adds.placedAs {n : Nat} {task : Task} {t t' : Trial} (h : Adds u problem n task t t')
    (hfits : task.Fits u t) (hwants : task.Wants u problem)
    (ht : t.PlacedAs u problem requirements) : t'.PlacedAs u problem requirements := by
  induction h with
  | walked hp hm hf hg h ih =>
    exact ih (hfits.walked hg) (hg.wants hp hm hf) (ht.requireInternal hfits.selected)
  | done => exact ht
  | next h1 h2 ih1 ih2 =>
    exact ih2 (hfits.rest (h1.brings hfits.first).1)
      (fun target paths hmem => hwants target paths (List.mem_cons_of_mem _ hmem))
      (ih1 hfits.first (hwants _ _ List.mem_cons_self) ht)
  | waits => exact ht.require (ht.chosen.wanted _ _ hfits.selected _ hwants)
  | known => exact ht.require (ht.chosen.wanted _ _ hfits.selected _ hwants)
  | fresh hs hconf hq hn h ih =>
    exact ih (.of_selected? hs) trivial (ht.require (ht.chosen.wanted _ _ hfits.selected _ hwants))

/-! ## Decisions that are repeated -/

namespace PartialSolution

variable {q : PartialSolution} {sel : Selected}

/-- What was selected is selected in a partial solution: the same version, from the same place. -/
def Repeats (q : PartialSolution) (sel : Selected) : Prop :=
  ∃ sel', q.selected? sel.project.root = some sel' ∧ sel'.project.location = sel.project.location ∧
    sel'.version.same sel.version = true

/-- What is selected again has the same packages and the same manifest. -/
theorem Repeats.exists_answers (h : q.Repeats sel) (hq : q.Sound u problem) :
    ∃ sel', q.selected? sel.project.root = some sel' ∧ sel'.project.root = sel.project.root ∧
      (∀ tree, u.packagesOf sel.project sel.version = .ok tree →
        u.packagesOf sel'.project sel'.version = .ok tree) ∧
      ∀ manifest, u.manifestOf sel.project sel.version = .ok manifest →
        u.manifestOf sel'.project sel'.version = .ok manifest := by
  obtain ⟨sel', hs, hlocation, hsame⟩ := h
  have hroot := selected?_root hs
  obtain ⟨d, hd, -, heq⟩ := selected?_eq_some hs
  obtain ⟨r, hr, -⟩ := hq.present d (mem_of_decision? hd)
  have hr' : sel'.version.revision? = some r := by
    rw [heq]
    exact hr
  have hrevision : sel.version.revision? = some r :=
    (Version.revision?_eq_of_same hsame).symm.trans hr'
  exact ⟨sel', hs, hroot,
    fun tree => Universe.packagesOf_congr hroot.symm hlocation.symm hrevision hr',
    fun manifest => Universe.manifestOf_congr hroot.symm hlocation.symm hrevision hr'⟩

/-- A requirement goes with what is selected again, if it goes with the requirements in force. -/
theorem Repeats.no_conflict (h : q.Repeats sel) (hq : q.Sound u problem) {site : Selected}
    {r r' : Requirement} (hr : r' ∈ q.requirements) (hproject : r'.project = r.project)
    (hconstraint : r'.constraint = r.constraint) (hroot : sel.project.root = r.project.root) :
    selectedConflict? site r sel = none := by
  obtain ⟨sel', hs, hlocation, hsame⟩ := h
  obtain ⟨hadmits, hplace⟩ := hq.accords.admitted r' hr sel' (by rw [hproject, ← hroot]; exact hs)
  rw [hproject, hlocation] at hplace
  rw [hconstraint, r.constraint.admits_eq_of_same hsame] at hadmits
  unfold selectedConflict?
  simp [hplace, hadmits]

/-- The packages that are required of what is selected again lead to no others within the
project. -/
theorem Sound.handsOn (hq : q.Sound u problem) {sel' : Selected}
    (hs : q.selected? sel.project.root = some sel') {tree : PackageTree}
    (ht : u.packagesOf sel'.project sel'.version = .ok tree) :
    tree.HandsOn (problem.place sel.project.root) fun x =>
      x ∈ packagesOf (q.requirementsOn sel.project.root) := by
  intro package imports path hpackage hi hpath hplace
  have hroot := selected?_root hs
  rw [← hroot] at hpackage hplace hs ⊢
  obtain ⟨-, -, hinside, -⟩ :=
    (hq.provided sel' package hs hpackage).imports ⟨tree, imports, ht, hi, hpath⟩
  obtain ⟨r, hr, hroot, hmem⟩ := hinside hplace
  exact mem_packagesOf_of_mem hr hroot hmem

end PartialSolution

/-! ## Expansions that fail again -/

/-- What a part of an expansion brings in is required in a partial solution. -/
def Task.RequiredIn (problem : Problem) (q : PartialSolution) : Task → Prop
  | .expand site packages _ => ∀ x ∈ packages, x ∈ packagesOf (q.requirementsOn site.project.root)
  | .requireAll _ manifest groups => ∀ target paths, (target, paths) ∈ groups →
      (∃ path, path ∈ paths) ∧
      ∀ path ∈ paths, ∃ depender, problem.Asked q.requirements depender manifest target path
  | .require _ r => (∃ r' ∈ q.requirements, r'.project = r.project ∧ r'.constraint = r.constraint) ∧
      ∀ x ∈ r.packages, x ∈ packagesOf (q.requirementsOn r.project.root)

namespace PartialSolution

variable {q : PartialSolution} {site : Selected} {packages known : SortedSet String}
  {tree : PackageTree}

/-- What is selected again is not missing a package that is required of it. -/
theorem Repeats.not_missing (h : q.Repeats site) (hq : q.Sound u problem)
    (hp : u.packagesOf site.project site.version = .ok tree)
    (hrequired : Task.RequiredIn problem q (.expand site packages known)) {package : String} :
    tree.footprint? (problem.place site.project.root) packages known ≠ .error package := by
  intro hf
  obtain ⟨sel', hs, hroot, hpackages, -⟩ := h.exists_answers hq
  have ht := hpackages tree hp
  obtain ⟨hpackage, hnone⟩ := PackageTree.footprint_error_needs (hq.handsOn hs ht) hrequired hf
  rw [← hroot] at hpackage hs
  obtain ⟨tree', -, imports, ht', -, hi, -⟩ := hq.provided sel' package hs hpackage
  obtain rfl : tree = tree' := Except.ok.inj (ht.symm.trans ht')
  rw [hnone] at hi
  exact nomatch hi

/-- What is selected again requires the same of others. -/
theorem Repeats.requiredIn_walked (h : q.Repeats site) (hq : q.Sound u problem)
    {manifest : Manifest} {f : Footprint} {groups : List (String × SortedSet String)}
    (hp : u.packagesOf site.project site.version = .ok tree)
    (hm : u.manifestOf site.project site.version = .ok manifest)
    (hf : tree.footprint? (problem.place site.project.root) packages known = .ok f)
    (hg : u.Groups problem site.project.root f.external groups)
    (hrequired : Task.RequiredIn problem q (.expand site packages known)) :
    Task.RequiredIn problem q (.requireAll site manifest groups) := by
  obtain ⟨sel', hs, hroot, hpackages, hmanifest⟩ := h.exists_answers hq
  have ht := hpackages tree hp
  intro target paths hmem
  refine ⟨hg.nonempty hmem, fun path hpath => ?_⟩
  obtain ⟨hexternal, howner⟩ := hg.sound hmem path hpath
  obtain ⟨package, imports, hpackage, hi, himported, hplace⟩ :=
    (PackageTree.footprint_ok_needs (hq.handsOn hs ht) hrequired hf).2 path hexternal
  rw [← hroot] at hpackage hplace hs
  obtain ⟨manifest', hm', -, houtside⟩ :=
    (hq.provided sel' package hs hpackage).imports ⟨tree, imports, ht, hi, himported⟩
  obtain rfl : manifest = manifest' := Except.ok.inj ((hmanifest manifest hm).symm.trans hm')
  obtain ⟨target', howner', hasked⟩ := houtside hplace
  obtain rfl : target = target' := Except.ok.inj (howner.symm.trans howner')
  exact ⟨_, hasked⟩

end PartialSolution

theorem Task.RequiredIn.first {q : PartialSolution} {site : Selected} {manifest : Manifest}
    {target : String} {paths : SortedSet String} {rest : List (String × SortedSet String)}
    {t : Trial} (h : Task.RequiredIn problem q
      (.requireAll site manifest ((target, paths) :: rest))) :
    Task.RequiredIn problem q
      (.require site (t.external site target (problem.termsFor manifest target) paths)) := by
  obtain ⟨⟨path, hpath⟩, hasked⟩ := h target paths List.mem_cons_self
  obtain ⟨-, r, hr, hproject, hconstraint, -⟩ := hasked path hpath
  refine ⟨⟨r, hr, hproject, hconstraint⟩, fun x hx => ?_⟩
  obtain ⟨-, r', hr', hproject', -, -, hx', -⟩ := hasked x hx
  exact PartialSolution.mem_packagesOf_of_mem hr' (congrArg Project.root hproject') hx'

/-- No requirement disagrees about the place of a project that is required in a partial solution
from the same places. -/
theorem Trial.PlacedAs.waitingFailure? {q : PartialSolution} {t : Trial} {site : Selected}
    {r : Requirement} (h : t.PlacedAs u problem q.requirements)
    (hrequired : Task.RequiredIn problem q (.require site r)) :
    waitingFailure? problem t site r = none := by
  obtain ⟨⟨r', hr', hproject, -⟩, -⟩ := hrequired
  unfold Depsolve.waitingFailure?
  rw [Option.map_eq_none_iff, List.find?_eq_none]
  intro other hother
  obtain ⟨hmem, hroot⟩ := Trial.mem_requirementsOn.1 hother
  have hlocation := h.requirements_placedAs other hmem r' hr' (by rw [hproject, hroot])
  rw [hproject] at hlocation
  simp [hlocation]

/-- An expansion of what is required in a partial solution does not fail because of decisions that
are all repeated there. -/
theorem Expands.not_repeated {q : PartialSolution} (hq : q.Sound u problem) {n : Nat}
    {task : Task} {t : Trial} {res : Except Stop (Except Failure Trial)}
    (h : Expands u problem n task t res) (hfits : task.Fits u t) (hsite : q.Repeats task.site)
    (hrequired : task.RequiredIn problem q) (hwants : task.Wants u problem)
    (ht : t.PlacedAs u problem q.requirements) {failure : Failure}
    (hres : res = .ok (.error failure)) :
    ¬ ∀ root sel, t.chosen.selected? root = some sel → sel.index ∈ failure.culprits →
      q.Repeats sel := by
  -- whatever is in the way here is in the way in the partial solution as well, which is sound
  induction h generalizing failure with
  | exhausted => simp at hres
  | unanswered => simp at hres
  | unowned => simp at hres
  | done => simp at hres
  | stops => simp at hres
  | waits => simp at hres
  | known => simp at hres
  | fresh => simp at hres
  | freshStops => simp at hres
  | missing hp hf => exact absurd hf (hsite.not_missing hq hp hrequired)
  | @walked n site packages known t tree manifest f groups res hp hm hf hg h ih =>
    have hnot := ih (hfits.walked hg) hsite (hsite.requiredIn_walked hq hp hm hf hg hrequired)
      (hg.wants hp hm hf) (ht.requireInternal hfits.selected) hres
    rwa [Trial.requireInternal_chosen] at hnot
  | @fails n site manifest target packages rest t failure' h1 ih1 =>
    obtain rfl : failure' = failure := by simpa using hres
    exact ih1 hfits.first hsite hrequired.first (hwants _ _ List.mem_cons_self) ht rfl
  | @next n site manifest target packages rest t t1 res h1 h2 ih1 ih2 =>
    have hadds := h1.adds rfl
    have hchosen := (hadds.brings hfits.first).1
    have hnot := ih2 (hfits.rest hchosen) hsite
      (fun target paths hmem => hrequired target paths (List.mem_cons_of_mem _ hmem))
      (fun target paths hmem => hwants target paths (List.mem_cons_of_mem _ hmem))
      (hadds.placedAs hfits.first (hwants _ _ List.mem_cons_self) ht) hres
    rwa [hchosen] at hnot
  | disagrees hs hw =>
    rw [ht.waitingFailure? hrequired] at hw
    exact nomatch hw
  | @conflicts n site r t sel c hs hconf =>
    obtain rfl : _ = failure := by simpa using hres
    intro hrepeats
    obtain ⟨⟨r', hr', hproject, hconstraint⟩, -⟩ := hrequired
    have hsel := hrepeats _ _ hs (SortedSet.mem_insert.2 (.inl rfl))
    rw [hsel.no_conflict hq hr' hproject hconstraint (PartialSolution.selected?_root hs)] at hconf
    exact nomatch hconf
  | @freshFails n site r t sel x failure' hs hconf hx hn h ih =>
    obtain rfl : _ = failure := by simpa using hres
    intro hrepeats
    have hsel := hrepeats _ _ hs (SortedSet.mem_union.2 (.inr (SortedSet.mem_insert.2 (.inl rfl))))
    have hroot := PartialSolution.selected?_root hs
    refine ih (.of_selected? hs) hsel (fun y hy => ?_) trivial
      (ht.require (ht.chosen.wanted _ _ hfits.selected _ hwants)) rfl fun root sel' hs' hi =>
        hrepeats root sel' hs' (SortedSet.mem_union.2 (.inl hi))
    rw [hroot]
    exact hrequired.2 y (SortedSet.mem_diff.1 hy).1

end Depsolve
