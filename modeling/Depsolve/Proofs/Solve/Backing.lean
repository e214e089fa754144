import Depsolve.Proofs.Solve.Reached

/-!
# Decisions that an assignment backs

A consistent assignment backs a decision if the decision's version stands for the one that the
assignment picks. What the backed decisions require is then in force under the assignment
(`Picks.Meets`), and an expansion that only meets backed decisions does not fail
(`Expands.of_backed`).
-/

namespace Depsolve

variable {u : Universe} {problem : Problem} {options : SolveOptions} {limits : Limits}
  {picks : Picks}

namespace Picks

/-- The version selected stands for the one that is picked, and both are from one place. -/
def Backs (picks : Picks) (sel : Selected) : Prop :=
  ∃ project version, picks sel.project.root = some (project, version) ∧
    project.root = sel.project.root ∧ project.location = sel.project.location ∧
      sel.version.StandsFor version

/-- A requirement is in force under an assignment. -/
structure Meets (u : Universe) (problem : Problem) (picks : Picks) (r : Requirement) : Prop where
  needed : ∃ q, picks.Needs u problem r.project.root q
  needs : ∀ q ∈ r.packages, picks.Needs u problem r.project.root q
  /-- The terms are asked for, unless the project requires the packages of itself. -/
  asks : r.isInternal = false → picks.Asks u problem r.project.root ⟨r.project.source, r.constraint⟩
  /-- The project is picked from the same place. -/
  located : ∀ project version, picks r.project.root = some (project, version) →
    project.location = r.project.location

theorem Asks.needed {root : String} {terms : Terms} (h : picks.Asks u problem root terms) :
    ∃ q, picks.Needs u problem root q := by
  cases h with
  | base hp hr => exact ⟨_, .base hp hr⟩
  | outside hn hi hplace hr => exact ⟨_, .outside hn hi hplace hr⟩

/-- A requirement with terms that are asked for is in force, if its packages are needed. -/
theorem Meets.of_asks (hc : picks.Consistent u problem) {r : Requirement} {terms : Terms}
    (ha : picks.Asks u problem r.project.root terms)
    (hproject : r.project = ⟨r.project.root, terms.source⟩)
    (hconstraint : r.constraint = terms.constraint)
    (hneeds : ∀ q ∈ r.packages, picks.Needs u problem r.project.root q) :
    picks.Meets u problem r := by
  have hsource : r.project.source = terms.source := by rw [hproject]
  refine ⟨ha.needed, hneeds, fun _ => ?_, fun project version hp => ?_⟩
  · rw [hsource, hconstraint]
    exact ha
  · rw [hproject]
    exact (hc.accords ha hp).2

/-- A requirement in force accepts the version that is picked. -/
theorem Meets.admits (hc : picks.Consistent u problem) {r : Requirement}
    (hr : picks.Meets u problem r) (hi : r.isInternal = true → r.constraint = .any)
    {project : Project} {v : Version} (hpick : picks r.project.root = some (project, v)) :
    r.constraint.admits v = true := by
  cases h : r.isInternal with
  | true => rw [hi h]; rfl
  | false => exact (hc.accords (hr.asks h) hpick).1

/-! ## What a backed version has -/

section Backs

variable {sel : Selected} {tree : PackageTree} {manifest : Manifest} {f : Footprint}
  {packages known : SortedSet String}

theorem Backs.imports (hb : picks.Backs sel) (ht : u.packagesOf sel.project sel.version = .ok tree)
    {package path : String} {imports : SortedSet String} (hi : tree.imports? package = some imports)
    (hp : path ∈ imports) : picks.Imports u sel.project.root package path := by
  obtain ⟨project, version, hpick, hroot, hloc, hst⟩ := hb
  obtain ⟨r, hr, hr'⟩ := hst.revision
  exact ⟨project, version, hpick,
    Universe.Carries.congr hroot.symm hloc.symm hr hr' ⟨tree, imports, ht, hi, hp⟩⟩

/-- What a backed version has of a needed package. -/
theorem Backs.provided (hc : picks.Consistent u problem) (hb : picks.Backs sel) {q : String}
    (hn : picks.Needs u problem sel.project.root q) : ∃ tree imports,
      u.packagesOf sel.project sel.version = .ok tree ∧ tree.imports? q = some imports := by
  obtain ⟨project, version, hpick, hroot, hloc, hst⟩ := hb
  obtain ⟨r, hr, hr'⟩ := hst.revision
  obtain ⟨project', version', tree, imports, hpick', ht, hi⟩ := hc.provided hn
  obtain ⟨rfl, rfl⟩ : project = project' ∧ version = version' := by simpa [hpick] using hpick'
  exact ⟨tree, imports, Universe.packagesOf_congr hroot hloc hr' hr ht, hi⟩

/-- The footprint of needed packages is needed. -/
theorem Backs.footprint (hb : picks.Backs sel)
    (ht : u.packagesOf sel.project sel.version = .ok tree)
    (hneeds : ∀ q ∈ packages, picks.Needs u problem sel.project.root q)
    (hf : tree.footprint? (problem.place sel.project.root) packages known = .ok f) :
    (∀ q ∈ f.packages, q ∈ known ∨ picks.Needs u problem sel.project.root q) ∧
      ∀ path ∈ f.external, ∃ q, picks.Needs u problem sel.project.root q ∧
        picks.Imports u sel.project.root q path ∧
          problem.place sel.project.root path = .outside := by
  obtain ⟨hp, he⟩ := PackageTree.footprint_ok_needs
    (fun package imports path hn hi hpath hplace => .inside hn (hb.imports ht hi hpath) hplace)
    hneeds hf
  refine ⟨hp, fun path hpath => ?_⟩
  obtain ⟨q, imports, hn, hi, hmem, hplace⟩ := he path hpath
  exact ⟨q, hn, hb.imports ht hi hmem, hplace⟩

/-- A backed version does not lack a needed package. -/
theorem Backs.not_missing (hc : picks.Consistent u problem) (hb : picks.Backs sel)
    (ht : u.packagesOf sel.project sel.version = .ok tree)
    (hneeds : ∀ q ∈ packages, picks.Needs u problem sel.project.root q) {package : String} :
    tree.footprint? (problem.place sel.project.root) packages known ≠ .error package := by
  intro hf
  obtain ⟨hn, hnone⟩ := PackageTree.footprint_error_needs
    (fun package imports path hn hi hpath hplace => .inside hn (hb.imports ht hi hpath) hplace)
    hneeds hf
  obtain ⟨tree', imports, ht', hi⟩ := hb.provided hc hn
  obtain rfl : tree = tree' := by simpa [ht] using ht'
  simp [hnone] at hi

/-- What needed packages of a backed version import of other projects belongs to some root. -/
theorem Backs.owned (hc : picks.Consistent u problem) (hb : picks.Backs sel)
    (ht : u.packagesOf sel.project sel.version = .ok tree)
    (hneeds : ∀ q ∈ packages, picks.Needs u problem sel.project.root q)
    (hf : tree.footprint? (problem.place sel.project.root) packages known = .ok f) {path : String}
    (hpath : path ∈ f.external) : ∃ target, u.rootOf path = .ok target := by
  obtain ⟨q, hn, hi, hplace⟩ := (hb.footprint ht hneeds hf).2 path hpath
  exact hc.owned hn hi hplace

/-- What a backed version requires of another project is in force. -/
theorem Backs.asks (hb : picks.Backs sel) (hm : u.manifestOf sel.project sel.version = .ok manifest)
    {q path target : String} (hn : picks.Needs u problem sel.project.root q)
    (hi : picks.Imports u sel.project.root q path)
    (hplace : problem.place sel.project.root path = .outside) (hr : u.rootOf path = .ok target) :
    picks.Asks u problem target (problem.termsFor manifest target) := by
  obtain ⟨project, version, hpick, hroot, hloc, hst⟩ := hb
  obtain ⟨r, hv, hv'⟩ := hst.revision
  exact .outside hn hi hplace hr hpick (Universe.manifestOf_congr hroot.symm hloc.symm hv hv' hm)

end Backs

end Picks

/-! ## Expansions among backed decisions -/

/-- What a part of an expansion adds is wanted under an assignment. -/
def Task.Wanted (u : Universe) (problem : Problem) (picks : Picks) : Task → Prop
  | .expand site packages _ => (∃ q, picks.Needs u problem site.project.root q) ∧
      ∀ q ∈ packages, picks.Needs u problem site.project.root q
  | .requireAll _ manifest groups => ∀ target paths, (target, paths) ∈ groups →
      picks.Asks u problem target (problem.termsFor manifest target) ∧
        ∀ q ∈ paths, picks.Needs u problem target q
  | .require _ r => picks.Meets u problem r ∧ r.isInternal = false

/-- The packages of a requirement in force are wanted of the project. -/
theorem Picks.Meets.wanted_expand {r : Requirement} {sel : Selected} {known : SortedSet String}
    (hr : picks.Meets u problem r) (hroot : sel.project.root = r.project.root) :
    Task.Wanted u problem picks (.expand sel (r.packages.diff known) known) := by
  refine ⟨by rw [hroot]; exact hr.needed, fun q hq => ?_⟩
  rw [hroot]
  exact hr.needs q (SortedSet.mem_diff.1 hq).1

/-- The groups of what a backed version imports are wanted. -/
theorem Universe.Groups.wanted {sel : Selected} {tree : PackageTree} {manifest : Manifest}
    {f : Footprint} {packages known : SortedSet String} {groups : List (String × SortedSet String)}
    (hg : u.Groups problem sel.project.root f.external groups) (hb : picks.Backs sel)
    (ht : u.packagesOf sel.project sel.version = .ok tree)
    (hm : u.manifestOf sel.project sel.version = .ok manifest)
    (hneeds : ∀ q ∈ packages, picks.Needs u problem sel.project.root q)
    (hf : tree.footprint? (problem.place sel.project.root) packages known = .ok f) :
    Task.Wanted u problem picks (.requireAll sel manifest groups) := by
  obtain ⟨-, hexternal⟩ := hb.footprint ht hneeds hf
  intro target paths hgroup
  refine ⟨?_, fun path hpath => ?_⟩
  · obtain ⟨path, hpath⟩ := hg.nonempty hgroup
    obtain ⟨hext, hr⟩ := hg.sound hgroup path hpath
    obtain ⟨q, hn, hi, hplace⟩ := hexternal path hext
    exact hb.asks hm hn hi hplace hr
  · obtain ⟨hext, hr⟩ := hg.sound hgroup path hpath
    obtain ⟨q, hn, hi, hplace⟩ := hexternal path hext
    exact .outside hn hi hplace hr

/-- What a backed version requires of itself is in force. -/
theorem Picks.Backs.meets_internal {sel : Selected} (hb : picks.Backs sel) (t : Trial)
    {added : SortedSet String} (hneeded : ∃ q, picks.Needs u problem sel.project.root q)
    (hneeds : ∀ q ∈ added, picks.Needs u problem sel.project.root q) :
    picks.Meets u problem (t.internal sel added) := by
  refine ⟨hneeded, hneeds, fun hi => by simp [Trial.internal] at hi, fun project version hp => ?_⟩
  obtain ⟨project', version', hpick, -, hloc, -⟩ := hb
  have hp' : picks sel.project.root = some (project, version) := hp
  obtain ⟨rfl, rfl⟩ : project' = project ∧ version' = version := by simpa [hpick] using hp'
  exact hloc

/-- A backed version that is selected goes with a requirement in force. -/
theorem Picks.Backs.no_conflict (hc : picks.Consistent u problem) {site sel : Selected}
    (hb : picks.Backs sel) {r : Requirement} (hr : picks.Meets u problem r)
    (hi : r.isInternal = false) (hroot : sel.project.root = r.project.root) :
    selectedConflict? site r sel = none := by
  obtain ⟨project, version, hpick, hproot, hloc, hst⟩ := hb
  rw [hroot] at hpick
  have hl : sel.project.location = r.project.location := hloc.symm.trans (hr.located _ _ hpick)
  have ha : r.constraint.admits sel.version = true :=
    hst.admits _ (hc.accords (hr.asks hi) hpick).1
  unfold selectedConflict?
  rw [if_neg (by simpa using hl), if_neg (by simp [ha])]

/-- The first group of what is wanted makes a requirement that is wanted, and the rest is wanted
too. -/
theorem Task.Wanted.cons (hc : picks.Consistent u problem) {t : Trial} {site : Selected}
    {manifest : Manifest} {target : String} {packages : SortedSet String}
    {rest : List (String × SortedSet String)}
    (h : Task.Wanted u problem picks (.requireAll site manifest ((target, packages) :: rest))) :
    Task.Wanted u problem picks
        (.require site (t.external site target (problem.termsFor manifest target) packages)) ∧
      Task.Wanted u problem picks (.requireAll site manifest rest) := by
  obtain ⟨hasks, hneeds⟩ := h target packages List.mem_cons_self
  exact ⟨⟨.of_asks hc hasks rfl rfl hneeds, rfl⟩,
    fun target' paths hmem => h target' paths (List.mem_cons_of_mem _ hmem)⟩

/-- The decisions of a trial are backed, and its requirements are in force. -/
structure Trial.IsBacked (u : Universe) (problem : Problem) (picks : Picks) (t : Trial) : Prop where
  backs : ∀ root sel, t.chosen.selected? root = some sel → picks.Backs sel
  meets : ∀ r ∈ t.requirements, picks.Meets u problem r

namespace Trial.IsBacked

variable {t : Trial} {r : Requirement} {site sel : Selected}

theorem require (ht : t.IsBacked u problem picks) (hr : picks.Meets u problem r) :
    (t.require r).IsBacked u problem picks := by
  refine ⟨ht.backs, fun r' hr' => ?_⟩
  rcases mem_requirements_require.1 hr' with hr' | rfl
  · exact ht.meets r' hr'
  · exact hr

/-- A trial stays backed when the footprint of needed packages is required. -/
theorem requireInternal (ht : t.IsBacked u problem picks) {tree : PackageTree} {f : Footprint}
    {packages known : SortedSet String} (hfits : Task.Fits u (.expand site packages known) t)
    (hwanted : Task.Wanted u problem picks (.expand site packages known))
    (htree : u.packagesOf site.project site.version = .ok tree)
    (hf : tree.footprint? (problem.place site.project.root) packages known = .ok f) :
    (t.requireInternal site (f.packages.diff known)).IsBacked u problem picks := by
  have hsite := ht.backs _ _ hfits.selected
  unfold Trial.requireInternal
  split
  · exact ht
  · refine ht.require (hsite.meets_internal t hwanted.1 fun q hq => ?_)
    obtain ⟨hq, hk⟩ := SortedSet.mem_diff.1 hq
    exact ((hsite.footprint htree hwanted.2 hf).1 q hq).resolve_left hk

/-- Requirements in force fetch a project from the same place. -/
theorem waitingFailure?_eq_none (ht : t.IsBacked u problem picks) (hc : picks.Consistent u problem)
    (hr : picks.Meets u problem r) : waitingFailure? problem t site r = none := by
  obtain ⟨q, hn⟩ := hr.needed
  obtain ⟨project, version, -, -, hpick, -⟩ := hc.provided hn
  refine Option.map_eq_none_iff.2 (List.find?_eq_none.2 fun other hother => ?_)
  obtain ⟨hmem, hroot⟩ := Trial.mem_requirementsOn.1 hother
  have hlocated := (ht.meets other hmem).located project version (by rw [hroot]; exact hpick)
  simp [← hlocated, ← hr.located _ _ hpick]

theorem selectedConflict?_eq_none (ht : t.IsBacked u problem picks)
    (hc : picks.Consistent u problem) (hr : picks.Meets u problem r) (hi : r.isInternal = false)
    (hs : t.chosen.selected? r.project.root = some sel) : selectedConflict? site r sel = none :=
  (ht.backs _ _ hs).no_conflict hc hr hi (PartialSolution.selected?_root hs)

end Trial.IsBacked

/-- An expansion ends in a trial that is backed, unless no depth is left. -/
def EndsBacked (u : Universe) (problem : Problem) (picks : Picks)
    (res : Except Stop (Except Failure Trial)) : Prop :=
  res = .error .exhausted ∨ ∃ t, res = .ok (.ok t) ∧ t.IsBacked u problem picks

theorem endsBacked_ok_iff {t : Trial} :
    EndsBacked u problem picks (.ok (.ok t)) ↔ t.IsBacked u problem picks := by
  simp [EndsBacked]

theorem not_endsBacked_failure {failure : Failure} :
    ¬ EndsBacked u problem picks (.ok (.error failure)) := by
  simp [EndsBacked]

/-- Where a consistent assignment backs all decisions, and all requirements are in force, an
expansion of what is wanted does not fail: it ends with more requirements in force, unless no
depth is left. -/
theorem Expands.of_backed (hc : picks.Consistent u problem) {n : Nat} {task : Task} {t : Trial}
    {res : Except Stop (Except Failure Trial)} (h : Expands u problem n task t res)
    (hfits : task.Fits u t) (hwanted : task.Wanted u problem picks)
    (ht : t.IsBacked u problem picks) : EndsBacked u problem picks res := by
  induction h with
  | exhausted => exact .inl rfl
  | unanswered hp =>
    obtain ⟨q, hn⟩ := hwanted.1
    obtain ⟨tree, -, htree, -⟩ := (ht.backs _ _ hfits.selected).provided hc hn
    exact nomatch hp.symm.trans htree
  | missing hp hf => exact absurd hf ((ht.backs _ _ hfits.selected).not_missing hc hp hwanted.2)
  | unowned hp hf hpath he =>
    obtain ⟨target, hr⟩ := (ht.backs _ _ hfits.selected).owned hc hp hwanted.2 hf hpath
    rw [hr] at he
    exact nomatch he
  | walked hp hm hf hg h ih =>
    exact ih (hfits.walked hg) (hg.wanted (ht.backs _ _ hfits.selected) hp hm hwanted.2 hf)
      (ht.requireInternal hfits hwanted hp hf)
  | done => exact endsBacked_ok_iff.2 ht
  | next h1 h2 ih1 ih2 =>
    obtain ⟨hfirst, hrest⟩ := hwanted.cons hc
    have hchosen := ((h1.adds rfl).brings hfits.first).1
    exact ih2 (hfits.rest hchosen) hrest (endsBacked_ok_iff.1 (ih1 hfits.first hfirst ht))
  | fails h1 ih1 => exact ih1 hfits.first (hwanted.cons hc).1 ht
  | stops h1 ih1 => exact ih1 hfits.first (hwanted.cons hc).1 ht
  | waits hs hw => exact endsBacked_ok_iff.2 (ht.require hwanted.1)
  | disagrees hs hw =>
    rw [ht.waitingFailure?_eq_none hc hwanted.1] at hw
    exact nomatch hw
  | conflicts hs hconf =>
    rw [ht.selectedConflict?_eq_none hc hwanted.1 hwanted.2 hs] at hconf
    exact nomatch hconf
  | known hs hconf hk => exact endsBacked_ok_iff.2 (ht.require hwanted.1)
  | fresh hs hconf hq hn h ih =>
    exact ih (.of_selected? hs) (hwanted.1.wanted_expand (PartialSolution.selected?_root hs))
      (ht.require hwanted.1)
  | freshFails hs hconf hq hn h ih =>
    exact absurd
      (ih (.of_selected? hs) (hwanted.1.wanted_expand (PartialSolution.selected?_root hs))
      (ht.require hwanted.1)) not_endsBacked_failure
  | freshStops hs hconf hq hn h ih =>
    exact ih (.of_selected? hs) (hwanted.1.wanted_expand (PartialSolution.selected?_root hs))
      (ht.require hwanted.1)

end Depsolve
