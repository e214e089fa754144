import Depsolve.Proofs.Solve.Backing
import Depsolve.Proofs.Solve.Soundness

/-!
# Finished searches are least closures

A finished search requires exactly the packages that its versions lead to from the problem: what it
requires is needed under its own assignment (`Solver.Reached.meets`), and what is needed it requires
(`PartialSolution.Sound.required_of_needs`). Its assignment is consistent.
-/

namespace Depsolve

variable {u : Universe} {problem : Problem} {options : SolveOptions} {limits : Limits}
  {picks : Picks} {p : PartialSolution}

/-- An assignment backs all decisions of a partial solution. -/
def Picks.BacksAll (picks : Picks) (p : PartialSolution) : Prop :=
  ∀ root sel, p.selected? root = some sel → picks.Backs sel

/-! ## What is required is needed -/

theorem Solver.meets_base {base : List Requirement} (hc : picks.Consistent u problem)
    (h : (u.solver problem options limits).baseRequirements.outcome = .ok base) :
    ∀ r ∈ base, picks.Meets u problem r := by
  intro r hr
  obtain ⟨-, -, -, hproject, hconstraint, ⟨path, hpath⟩, hpaths⟩ := (baseRequirements_ok h).2 r hr
  obtain ⟨hp, hroot⟩ := hpaths path hpath
  exact .of_asks hc (.base hp hroot) hproject hconstraint fun q hq =>
    .base (hpaths q hq).1 (hpaths q hq).2

/-- The project to decide on is needed, with the packages that are required of it, if the
requirements on it are in force. -/
theorem Solver.Opens.wanted (hp : p.Sound u problem) {project : Project} {left : List Version}
    (ho : (u.solver problem options limits).Opens p project left)
    (h : ∀ r ∈ p.requirementsOn project.root, picks.Meets u problem r) :
    (∃ q, picks.Needs u problem project.root q) ∧
      ∀ q ∈ packagesOf (p.requirementsOn project.root), picks.Needs u problem project.root q := by
  constructor
  · obtain ⟨r, hr, -, rfl⟩ := hp.required_of_opens ho
    exact (h r (PartialSolution.mem_requirementsOn.2 ⟨hr, rfl⟩)).needed
  · intro q hq
    obtain ⟨r, hr, hq⟩ := mem_packagesOf.1 hq
    have hneeds := (h r hr).needs q hq
    rwa [(PartialSolution.mem_requirementsOn.1 hr).2] at hneeds

/-- Trying a version that is backed, among decisions that are backed, brings requirements in force,
unless no depth is left. -/
theorem Solver.attempt_of_backed (hc : picks.Consistent u problem) (hp : p.Sound u problem)
    {f : Frame} {v : Version} {left : List Version}
    (ho : (u.solver problem options limits).Opens p f.project left)
    (hb : picks.BacksAll (p.trial f v).chosen) (h : ∀ r ∈ p.requirements, picks.Meets u problem r) :
    ((u.solver problem options limits).attempt p f v).outcome = .error .exhausted ∨
      ∃ added, ((u.solver problem options limits).attempt p f v).outcome = .ok (.ok added) ∧
        ∀ r ∈ added, picks.Meets u problem r := by
  obtain ⟨res, hexp, hres⟩ := attempt_expands u problem options limits p f v
  have hwanted : Task.Wanted u problem picks (.expand (p.next f v)
      (packagesOf (p.requirementsOn f.project.root)) .empty) :=
    ho.wanted hp fun r hr => h r (PartialSolution.mem_requirementsOn.1 hr).1
  rw [hres]
  have ht : (p.trial f v).IsBacked u problem picks := ⟨hb, PartialSolution.trial_requirements ▸ h⟩
  rcases hexp.of_backed hc (attempt_fits ho.selected?) hwanted ht with rfl | ⟨t, rfl, ht'⟩
  · exact .inl rfl
  · exact .inr ⟨t.pending, rfl, fun r hr => ht'.meets r (List.mem_append_right _ hr)⟩

/-- Under an assignment that backs all decisions, all requirements are in force. -/
theorem Solver.Reached.meets (h : (u.solver problem options limits).Reached p)
    (hc : picks.Consistent u problem) (hb : picks.BacksAll p) :
    ∀ r ∈ p.requirements, picks.Meets u problem r := by
  -- along the decisions: each was accepted among requirements in force, so it brought in only such
  induction h with
  | base hbase =>
    intro r hr
    exact meets_base hc hbase r (by simpa [PartialSolution.requirements] using hr)
  | @push p f v added hp ho ha ih =>
    have ih := ih fun root sel hs => hb root sel (PartialSolution.selected?_push_of_some hs)
    have hb' : picks.BacksAll (p.trial f v).chosen := fun root sel hs =>
      hb root sel (by rw [← hs]; exact PartialSolution.selected?_push_added)
    intro r hr
    rw [PartialSolution.requirements_push] at hr
    rcases List.mem_append.1 hr with hr | hr
    · exact ih r hr
    · rcases attempt_of_backed hc (PartialSolution.sound_of_reached hp) ho hb' ih with
        he | ⟨added', ha', hmeets⟩
      · simp [ha] at he
      · obtain rfl : added = added' := by simpa [ha] using ha'
        exact hmeets r hr

/-! ## What is needed is required -/

namespace PartialSolution

/-- In a finished search, a package that is required is provided for by the version decided on. -/
theorem Sound.exists_provided (hp : p.Sound u problem) (hc : p.Complete) {root q : String}
    (hq : q ∈ packagesOf (p.requirementsOn root)) : ∃ sel, p.selected? root = some sel ∧
      u.Provided problem p.requirements sel q := by
  obtain ⟨r, hr, -⟩ := Depsolve.mem_packagesOf.1 hq
  obtain ⟨hmem, hroot⟩ := mem_requirementsOn.1 hr
  obtain ⟨sel, hs⟩ := hc r hmem
  rw [hroot] at hs
  have hsel := selected?_root hs
  exact ⟨sel, hs, hp.provided sel q (hsel ▸ hs) (hsel ▸ hq)⟩

theorem mem_packagesOf_of_mem {r : Requirement} {root q : String} (hr : r ∈ p.requirements)
    (hroot : r.project.root = root) (hq : q ∈ r.packages) :
    q ∈ packagesOf (p.requirementsOn root) :=
  Depsolve.mem_packagesOf.2 ⟨r, mem_requirementsOn.2 ⟨hr, hroot⟩, hq⟩

/-- The imports of a package that is picked are those of the version that was decided on. -/
theorem carries_of_imports (hb : picks.BacksAll p) {root package path : String} {sel : Selected}
    (hs : p.selected? root = some sel) (himp : picks.Imports u root package path) :
    u.Carries sel.project sel.version package path := by
  obtain ⟨project, version, hpick, hcarries⟩ := himp
  obtain ⟨project', version', hpick', hroot, hloc, hst⟩ := hb root sel hs
  rw [selected?_root hs] at hpick'
  obtain ⟨rfl, rfl⟩ : project = project' ∧ version = version' := by simpa [hpick] using hpick'
  obtain ⟨r, hr, hr'⟩ := hst.revision
  exact hcarries.congr hroot hloc hr' hr

/-- A finished search with backed decisions requires whatever is needed. -/
theorem Sound.required_of_needs (hp : p.Sound u problem) (hc : p.Complete) (hb : picks.BacksAll p)
    {root q : String} (hn : picks.Needs u problem root q) :
    q ∈ packagesOf (p.requirementsOn root) := by
  -- whatever leads to the package has been required before, and is provided for
  induction hn with
  | @base root path hpath hroot =>
    obtain ⟨root', hroot', r, hr, hproject, -, -, hq, -⟩ := hp.base path hpath
    obtain rfl : root = root' := by simpa [hroot] using hroot'
    exact mem_packagesOf_of_mem hr (congrArg Project.root hproject) hq
  | @inside root package path hn himp hplace ih =>
    obtain ⟨sel, hs, hprovided⟩ := hp.exists_provided hc ih
    obtain ⟨manifest, -, hin, -⟩ := hprovided.imports (carries_of_imports hb hs himp)
    rw [selected?_root hs] at hin
    obtain ⟨r, hr, hroot, hq⟩ := hin hplace
    exact mem_packagesOf_of_mem hr hroot hq
  | @outside root package path target hn himp hplace hr ih =>
    obtain ⟨sel, hs, hprovided⟩ := hp.exists_provided hc ih
    obtain ⟨manifest, -, -, hout⟩ := hprovided.imports (carries_of_imports hb hs himp)
    rw [selected?_root hs] at hout
    obtain ⟨target', hr', r, hmem, hproject, -, -, hq, -⟩ := hout hplace
    obtain rfl : target = target' := by simpa [hr] using hr'
    exact mem_packagesOf_of_mem hmem (congrArg Project.root hproject) hq

/-- A finished search with backed decisions requires exactly the packages that are needed. -/
theorem mem_packagesOf_iff_needs (h : (u.solver problem options limits).Reached p)
    (hc : p.Complete) (hpicks : picks.Consistent u problem) (hb : picks.BacksAll p)
    {root q : String} : q ∈ packagesOf (p.requirementsOn root) ↔ picks.Needs u problem root q := by
  refine ⟨fun hq => ?_, (sound_of_reached h).required_of_needs hc hb⟩
  obtain ⟨r, hr, hmem⟩ := Depsolve.mem_packagesOf.1 hq
  obtain ⟨hr, hroot⟩ := mem_requirementsOn.1 hr
  have hneeds := (h.meets hpicks hb r hr).needs q hmem
  rwa [hroot] at hneeds

/-- The assignment of a partial solution backs its decisions. -/
theorem Sound.backsAll_picks (hp : p.Sound u problem) : p.picks.BacksAll p := by
  intro root sel hs
  have hsel := selected?_root hs
  obtain ⟨d, hd, -, heq⟩ := selected?_eq_some hs
  obtain ⟨r, hr, -⟩ := hp.present d (mem_of_decision? hd)
  refine ⟨sel.project, sel.version, picks_of_selected? (hsel ▸ hs), rfl, rfl, ?_⟩
  rw [heq]
  exact .refl hr

/-- In a finished search, the terms that are asked for are those of a requirement. -/
theorem Sound.required_of_asks (hp : p.Sound u problem) (hc : p.Complete) {root : String}
    {terms : Terms} (ha : p.picks.Asks u problem root terms) :
    ∃ r ∈ p.requirements, r.project = ⟨root, terms.source⟩ ∧ r.constraint = terms.constraint := by
  cases ha with
  | base hpath hroot =>
    obtain ⟨root', hroot', r, hr, hproject, hconstraint, -⟩ := hp.base _ hpath
    obtain rfl : root = root' := by simpa [hroot] using hroot'
    exact ⟨r, hr, hproject, hconstraint⟩
  | @outside root' package path target project version manifest hn himp hplace hr hpick hm =>
    obtain ⟨sel, hs, hprovided⟩ :=
      hp.exists_provided hc (hp.required_of_needs hc hp.backsAll_picks hn)
    obtain ⟨manifest', hm', -, hout⟩ :=
      hprovided.imports (carries_of_imports hp.backsAll_picks hs himp)
    obtain ⟨rfl, rfl⟩ : project = sel.project ∧ version = sel.version := by
      simpa [hpick] using picks_of_selected? hs
    obtain rfl : manifest = manifest' := by simpa [hm] using hm'
    rw [selected?_root hs] at hout
    obtain ⟨target', hr', r, hmem, hproject, hconstraint, -⟩ := hout hplace
    obtain rfl : root = target' := by simpa [hr] using hr'
    exact ⟨r, hmem, hproject, hconstraint⟩

/-- The assignment of a finished search is consistent. -/
theorem Sound.consistent_picks (hp : p.Sound u problem) (hc : p.Complete) :
    p.picks.Consistent u problem where
  rooted hpick := by
    obtain ⟨sel, hs, rfl, -⟩ := picks_eq_some hpick
    exact selected?_root hs
  baseOwned hpath := by
    obtain ⟨root, hroot, -⟩ := hp.base _ hpath
    exact ⟨root, hroot⟩
  provided hn := by
    obtain ⟨sel, hs, tree, -, imports, ht, -, hi, -⟩ :=
      hp.exists_provided hc (hp.required_of_needs hc hp.backsAll_picks hn)
    exact ⟨sel.project, sel.version, tree, imports, picks_of_selected? hs, ht, hi⟩
  owned hn himp hplace := by
    obtain ⟨sel, hs, hprovided⟩ :=
      hp.exists_provided hc (hp.required_of_needs hc hp.backsAll_picks hn)
    obtain ⟨manifest, -, -, hout⟩ :=
      hprovided.imports (carries_of_imports hp.backsAll_picks hs himp)
    rw [selected?_root hs] at hout
    obtain ⟨target, hr, -⟩ := hout hplace
    exact ⟨target, hr⟩
  accords ha hpick := by
    obtain ⟨r, hr, hproject, hconstraint⟩ := hp.required_of_asks hc ha
    obtain ⟨sel, hs, rfl, rfl⟩ := picks_eq_some hpick
    have hroot := congrArg Project.root hproject
    obtain ⟨hadmits, hloc⟩ := hp.accords.admitted r hr sel (by rw [hroot]; exact hs)
    exact ⟨hconstraint ▸ hadmits, hloc.trans (congrArg Project.location hproject)⟩

end PartialSolution

end Depsolve
