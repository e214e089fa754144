import Depsolve.Proofs.Solve.Decisions
import Depsolve.Proofs.Solve.Expansion
import Depsolve.Proofs.Solve.Reach

/-!
# What expansions bring about

An expansion that does not fail adds requirements and changes nothing else. Each requirement that it
adds goes with the decisions and with the other requirements (`PartialSolution.Accords`), and the
imports of each package that it brings in are provided for (`Provided`).

`Adds.preserves` is the induction behind these results: what holds of a trial, and is kept when one
requirement that goes with it is added, holds when the expansion has ended.
-/

namespace Depsolve

variable {u : Universe} {problem : Problem}

/-- The project that a part of an expansion is about. -/
def Task.site : Task → Selected
  | .expand site _ _ => site
  | .requireAll site _ _ => site
  | .require site _ => site

/-- Some path belongs to a root. -/
def Universe.Owns (u : Universe) (root : String) : Prop :=
  ∃ path, u.rootOf path = .ok root

theorem Universe.Owns.mem_roots {root : String} (h : u.Owns root) :
    root ∈ u.projects.keys ++ u.unreachable.toList := by
  obtain ⟨path, hr⟩ := h
  exact mem_roots_of_rootOf hr

/-- A part of an expansion is about a project that was decided on; what it requires of others, it
requires of roots that own some path. -/
structure Task.Fits (u : Universe) (task : Task) (t : Trial) : Prop where
  selected : t.chosen.selected? task.site.project.root = some task.site
  /-- The groups are of roots that own some path. -/
  grouped : ∀ site manifest groups, task = .requireAll site manifest groups →
    ∀ target paths, (target, paths) ∈ groups → u.Owns target
  /-- The requirement is one on another project, with a root that owns some path. -/
  external : ∀ site r, task = .require site r →
    ∃ target terms packages, r = t.external site target terms packages ∧ u.Owns target

namespace Task.Fits

variable {t t' : Trial} {site sel : Selected} {manifest : Manifest}
  {packages known : SortedSet String} {groups : List (String × SortedSet String)}
  {target root : String}

theorem of_selected? (h : t.chosen.selected? root = some sel) :
    Task.Fits u (.expand sel packages known) t := by
  refine ⟨?_, by simp, by simp⟩
  show t.chosen.selected? sel.project.root = some sel
  rw [PartialSolution.selected?_root h]
  exact h

theorem walked (h : Task.Fits u (.expand site packages known) t) {external : SortedSet String}
    (hg : u.Groups problem site.project.root external groups) {added : SortedSet String} :
    Task.Fits u (.requireAll site manifest groups) (t.requireInternal site added) := by
  have hchosen : (t.requireInternal site added).chosen = t.chosen := by
    unfold Trial.requireInternal
    split <;> rfl
  refine ⟨hchosen ▸ h.selected, fun _ _ _ he target paths hmem => ?_, by simp⟩
  obtain ⟨rfl, rfl, rfl⟩ := Task.requireAll.inj he
  obtain ⟨path, hpath⟩ := hg.nonempty hmem
  exact ⟨path, (hg.sound hmem path hpath).2⟩

theorem first (h : Task.Fits u (.requireAll site manifest ((target, packages) :: groups)) t)
    {terms : Terms} : Task.Fits u (.require site (t.external site target terms packages)) t := by
  refine ⟨h.selected, by simp, fun _ _ he => ?_⟩
  obtain ⟨rfl, rfl⟩ := Task.require.inj he
  exact ⟨_, _, _, rfl, h.grouped _ _ _ rfl _ _ List.mem_cons_self⟩

theorem rest (h : Task.Fits u (.requireAll site manifest ((target, packages) :: groups)) t)
    (hc : t'.chosen = t.chosen) : Task.Fits u (.requireAll site manifest groups) t' := by
  refine ⟨hc ▸ h.selected, fun _ _ _ he target paths hmem => ?_, by simp⟩
  obtain ⟨rfl, rfl, rfl⟩ := Task.requireAll.inj he
  exact h.grouped _ _ _ rfl target paths (List.mem_cons_of_mem _ hmem)

end Task.Fits

theorem Trial.requireInternal_chosen {t : Trial} {site : Selected} {added : SortedSet String} :
    (t.requireInternal site added).chosen = t.chosen := by
  unfold requireInternal
  split <;> rfl

theorem Trial.mem_packagesOf_requireInternal {t : Trial} {site : Selected}
    {added : SortedSet String} {root q : String} :
    q ∈ (t.requireInternal site added).packagesOf root ↔
      q ∈ t.packagesOf root ∨ site.project.root = root ∧ q ∈ added := by
  unfold requireInternal
  split
  · rename_i hempty
    exact ⟨.inl, fun h => h.resolve_right fun h => SortedSet.isEmpty_iff.1 hempty q h.2⟩
  · exact mem_packagesOf_require

/-- A requirement on a project goes with what was decided and required before. -/
def Trial.Admits (problem : Problem) (t : Trial) (site : Selected) (r : Requirement) : Prop :=
  (t.chosen.selected? r.project.root = none ∧ waitingFailure? problem t site r = none) ∨
    ∃ sel, t.chosen.selected? r.project.root = some sel ∧ selectedConflict? site r sel = none

/-- What is kept when a requirement is added is kept by an expansion, which does not change the
decisions. -/
theorem Adds.preserves (Inv : Trial → Prop)
    (hinternal : ∀ t site added, Inv t → t.chosen.selected? site.project.root = some site →
      Inv (t.require (t.internal site added)))
    (hexternal : ∀ t site target terms packages, Inv t →
      t.chosen.selected? site.project.root = some site → u.Owns target →
      t.Admits problem site (t.external site target terms packages) →
        Inv (t.require (t.external site target terms packages)))
    {n : Nat} {task : Task} {t t' : Trial} (h : Adds u problem n task t t') (hfits : task.Fits u t)
    (ht : Inv t) : t'.chosen = t.chosen ∧ Inv t' := by
  -- every requirement that an expansion adds is one of its own project, or one that was let in
  induction h with
  | @walked n site packages known t tree manifest f groups t' hp hm hf hg h ih =>
    have hinv : Inv (t.requireInternal site (f.packages.diff known)) := by
      unfold Trial.requireInternal
      split
      · exact ht
      · exact hinternal _ _ _ ht hfits.selected
    obtain ⟨hc, ht'⟩ := ih (hfits.walked hg) hinv
    exact ⟨hc.trans Trial.requireInternal_chosen, ht'⟩
  | done => exact ⟨rfl, ht⟩
  | next h1 h2 ih1 ih2 =>
    obtain ⟨hc1, ht1⟩ := ih1 hfits.first ht
    obtain ⟨hc2, ht2⟩ := ih2 (hfits.rest hc1) ht1
    exact ⟨hc2.trans hc1, ht2⟩
  | waits hs hw =>
    obtain ⟨target, terms, packages, rfl, ho⟩ := hfits.external _ _ rfl
    exact ⟨rfl, hexternal _ _ _ _ _ ht hfits.selected ho (.inl ⟨hs, hw⟩)⟩
  | known hs hc hk =>
    obtain ⟨target, terms, packages, rfl, ho⟩ := hfits.external _ _ rfl
    exact ⟨rfl, hexternal _ _ _ _ _ ht hfits.selected ho (.inr ⟨_, hs, hc⟩)⟩
  | fresh hs hc hq hn h ih =>
    obtain ⟨target, terms, packages, rfl, ho⟩ := hfits.external _ _ rfl
    exact ih (.of_selected? hs)
      (hexternal _ _ _ _ _ ht hfits.selected ho (.inr ⟨_, hs, hc⟩))

/-! ## Requirements go together -/

theorem Trial.requirements_require {t : Trial} {r : Requirement} :
    (t.require r).requirements = t.requirements ++ [r] := by
  simp [requirements, require]

structure PartialSolution.Accords (p : PartialSolution) (requirements : List Requirement) :
    Prop where
  /-- The version that was decided on is accepted, and from the right place. -/
  admitted : ∀ r ∈ requirements, ∀ sel, p.selected? r.project.root = some sel →
    r.constraint.admits sel.version = true ∧ sel.project.location = r.project.location
  /-- A project is required from one place only. -/
  agreed : ∀ r ∈ requirements, ∀ r' ∈ requirements, r.project.root = r'.project.root →
    r.project.location = r'.project.location

namespace PartialSolution.Accords

variable {p : PartialSolution} {requirements : List Requirement} {r : Requirement}

/-- A requirement on a project that was decided on goes with the others if it goes with the
decision. -/
theorem insert_selected {sel : Selected} (h : p.Accords requirements)
    (hs : p.selected? r.project.root = some sel) (ha : r.constraint.admits sel.version = true)
    (hl : sel.project.location = r.project.location) : p.Accords (requirements ++ [r]) := by
  refine ⟨fun x hx sel' hs' => ?_, fun x hx y hy hxy => ?_⟩
  · rcases List.mem_append.1 hx with hx | hx
    · exact h.admitted x hx sel' hs'
    · obtain rfl := List.mem_singleton.1 hx
      obtain rfl : sel = sel' := by simpa [hs] using hs'
      exact ⟨ha, hl⟩
  · have hat : ∀ z ∈ requirements ++ [r], z.project.root = r.project.root →
        sel.project.location = z.project.location := by
      intro z hz hroot
      rcases List.mem_append.1 hz with hz | hz
      · exact (h.admitted z hz sel (by rw [hroot]; exact hs)).2
      · rw [List.mem_singleton.1 hz]
        exact hl
    by_cases hr : x.project.root = r.project.root
    · rw [← hat x hx hr, ← hat y hy (hxy ▸ hr)]
    · have hold : ∀ z ∈ requirements ++ [r], z.project.root ≠ r.project.root →
          z ∈ requirements := by
        intro z hz hroot
        rcases List.mem_append.1 hz with hz | hz
        · exact hz
        · exact absurd (by rw [List.mem_singleton.1 hz]) hroot
      exact h.agreed x (hold x hx hr) y (hold y hy (hxy ▸ hr)) hxy

/-- A requirement on a project that waits goes with the others if they fetch the project from the
same place. -/
theorem insert_waiting (h : p.Accords requirements) (hs : p.selected? r.project.root = none)
    (hl : ∀ x ∈ requirements, x.project.root = r.project.root →
      x.project.location = r.project.location) : p.Accords (requirements ++ [r]) := by
  refine ⟨fun x hx sel hs' => ?_, fun x hx y hy hxy => ?_⟩
  · rcases List.mem_append.1 hx with hx | hx
    · exact h.admitted x hx sel hs'
    · obtain rfl := List.mem_singleton.1 hx
      simp [hs] at hs'
  · rcases List.mem_append.1 hx with hx | hx
    · rcases List.mem_append.1 hy with hy | hy
      · exact h.agreed x hx y hy hxy
      · rw [List.mem_singleton.1 hy] at hxy ⊢
        exact hl x hx hxy
    · rw [List.mem_singleton.1 hx] at hxy ⊢
      rcases List.mem_append.1 hy with hy | hy
      · exact (hl y hy hxy.symm).symm
      · rw [List.mem_singleton.1 hy]

end PartialSolution.Accords

/-- Without a conflict, the version selected is accepted, and from the right place. -/
theorem selectedConflict?_eq_none {site sel : Selected} {r : Requirement}
    (h : selectedConflict? site r sel = none) :
    r.constraint.admits sel.version = true ∧ sel.project.location = r.project.location := by
  unfold selectedConflict? at h
  split at h
  · simp at h
  · rename_i hl
    split at h
    · simp at h
    · rename_i ha
      exact ⟨by simpa using ha, Decidable.not_not.1 hl⟩

theorem waitingFailure?_eq_none {t : Trial} {site : Selected} {r : Requirement}
    (h : waitingFailure? problem t site r = none) :
    ∀ x ∈ t.requirements, x.project.root = r.project.root →
      x.project.location = r.project.location := by
  intro x hx hroot
  have hfind := Option.map_eq_none_iff.1 h
  rw [List.find?_eq_none] at hfind
  simpa using hfind x (Trial.mem_requirementsOn.2 ⟨hx, hroot⟩)

/-- An expansion keeps requirements together. -/
theorem Adds.accords {n : Nat} {task : Task} {t t' : Trial} (h : Adds u problem n task t t')
    (hfits : task.Fits u t) (ht : t.chosen.Accords t.requirements) :
    t'.chosen.Accords t'.requirements := by
  refine (h.preserves (fun t => t.chosen.Accords t.requirements) ?_ ?_ hfits ht).2
  · intro t site added ht hsite
    rw [Trial.requirements_require]
    exact ht.insert_selected hsite rfl rfl
  · intro t site target terms packages ht hsite _ hadmits
    rw [Trial.requirements_require]
    rcases hadmits with ⟨hs, hw⟩ | ⟨sel, hs, hc⟩
    · exact ht.insert_waiting hs (waitingFailure?_eq_none hw)
    · obtain ⟨ha, hl⟩ := selectedConflict?_eq_none hc
      exact ht.insert_selected hs ha hl

/-! ## Where requirements come from -/

/-- A requirement was brought by the version on trial. -/
structure Trial.Brings (u : Universe) (t : Trial) (r : Requirement) : Prop where
  /-- The decision on trial owns it. -/
  owner : r.owner = some t.owner
  /-- A project that was decided on has it. -/
  depender : ∃ sel, t.chosen.selected? sel.project.root = some sel ∧ r.depender = some sel.index
  /-- One that a project has on itself is on a project that was decided on, and accepts every
  version. -/
  internal : r.isInternal = true →
    r.constraint = .any ∧ ∃ sel, t.chosen.selected? r.project.root = some sel
  /-- It is on a project that was decided on, or that has a root that owns some path. -/
  owned : (∃ sel, t.chosen.selected? r.project.root = some sel) ∨ u.Owns r.project.root

/-- An expansion does not change the decisions, and only adds requirements that the version on trial
brings. -/
theorem Adds.brings {n : Nat} {task : Task} {t t' : Trial} (h : Adds u problem n task t t')
    (hfits : task.Fits u t) :
    t'.chosen = t.chosen ∧ (∀ r ∈ t.pending, r ∈ t'.pending) ∧
      ∀ r ∈ t'.pending, r ∈ t.pending ∨ t.Brings u r := by
  let Inv : Trial → Prop := fun t' => t'.chosen = t.chosen ∧ (∀ r ∈ t.pending, r ∈ t'.pending) ∧
    ∀ r ∈ t'.pending, r ∈ t.pending ∨ t.Brings u r
  -- what an expansion adds, it adds one at a time
  have hadd : ∀ t' r, Inv t' → t.Brings u r → Inv (t'.require r) := by
    rintro t' r ⟨hc, hkeep, hnew⟩ hr
    refine ⟨hc, fun x hx => List.mem_append_left _ (hkeep x hx), fun x hx => ?_⟩
    rcases List.mem_append.1 hx with hx | hx
    · exact hnew x hx
    · rw [List.mem_singleton.1 hx]
      exact .inr hr
  refine (h.preserves Inv ?_ ?_ hfits ⟨rfl, fun _ => id, fun _ => .inl⟩).2
  · intro t' site added ht' hsite
    rw [ht'.1] at hsite
    refine hadd t' _ ht' ⟨?_, ⟨site, hsite, rfl⟩, fun _ => ⟨rfl, site, hsite⟩, .inl ⟨site, hsite⟩⟩
    simp only [Trial.internal, Trial.owner, ht'.1]
  · intro t' site target terms packages ht' hsite ho _
    rw [ht'.1] at hsite
    refine hadd t' _ ht' ⟨?_, ⟨site, hsite, rfl⟩, fun hi => ?_, .inr ho⟩
    · simp only [Trial.external, Trial.owner, ht'.1]
    · simp [Trial.external] at hi

/-! ## What packages import is provided for -/

/-- An import that leads out of a project lies neither in it nor in the project being solved. -/
theorem Problem.covers_of_outside {root path : String} (h : problem.place root path = .outside) :
    ImportPath.covers problem.root path = false ∧ ImportPath.covers root path = false := by
  unfold place at h
  split at h
  · simp at h
  · rename_i hskip
    split at h
    · simp at h
    · rename_i hc
      simp only [skips, Bool.or_eq_true, not_or, Bool.not_eq_true] at hskip
      exact ⟨hskip.2, by simpa using hc⟩

theorem Problem.place_of_not_skips {root path : String} (h : problem.skips path = false) :
    problem.place root path = if ImportPath.covers root path then .inside else .outside := by
  rw [place, h]
  rfl

theorem Problem.skips_of_place {root path : String} (h : problem.place root path ≠ .skipped) :
    problem.skips path = false := by
  unfold place at h
  split at h
  · exact absurd rfl h
  · rename_i hskips
    simpa using hskips

theorem Problem.covers_of_inside {root path : String} (h : problem.place root path = .inside) :
    ImportPath.covers root path = true := by
  rw [place_of_not_skips (skips_of_place (by rw [h]; simp))] at h
  split at h
  · assumption
  · simp at h

/-- The requirement that a depender with some manifest has on another project is among some
requirements, for the package of a path. -/
def Problem.Asked (problem : Problem) (requirements : List Requirement) (depender : Option Nat)
    (manifest : Manifest) (target path : String) : Prop :=
  ∃ r ∈ requirements, r.project = ⟨target, (problem.termsFor manifest target).source⟩ ∧
    r.constraint = (problem.termsFor manifest target).constraint ∧ r.isInternal = false ∧
      path ∈ r.packages ∧ r.depender = depender

/-- A package of a project that is selected is there, and some requirements provide for what it
imports. -/
def Universe.Provided (u : Universe) (problem : Problem) (requirements : List Requirement)
    (sel : Selected) (package : String) : Prop :=
  ∃ tree manifest imports, u.packagesOf sel.project sel.version = .ok tree ∧
    u.manifestOf sel.project sel.version = .ok manifest ∧ tree.imports? package = some imports ∧
      ∀ path ∈ imports,
        (problem.place sel.project.root path = .inside →
          ∃ r ∈ requirements, r.project.root = sel.project.root ∧ path ∈ r.packages) ∧
        (problem.place sel.project.root path = .outside →
          ∃ target, u.rootOf path = .ok target ∧
            problem.Asked requirements (some sel.index) manifest target path)

theorem Problem.Asked.mono {requirements requirements' : List Requirement} {depender : Option Nat}
    {manifest : Manifest} {target path : String} (hsub : ∀ r ∈ requirements, r ∈ requirements')
    (h : problem.Asked requirements depender manifest target path) :
    problem.Asked requirements' depender manifest target path := by
  obtain ⟨r, hr, h⟩ := h
  exact ⟨r, hsub r hr, h⟩

theorem Universe.Provided.mono {requirements requirements' : List Requirement} {sel : Selected}
    {package : String} (hsub : ∀ r ∈ requirements, r ∈ requirements')
    (h : u.Provided problem requirements sel package) :
    u.Provided problem requirements' sel package := by
  obtain ⟨tree, manifest, imports, ht, hm, hi, h⟩ := h
  refine ⟨tree, manifest, imports, ht, hm, hi, fun path hp => ⟨fun hin => ?_, fun hout => ?_⟩⟩
  · obtain ⟨r, hr, hroot⟩ := (h path hp).1 hin
    exact ⟨r, hsub r hr, hroot⟩
  · obtain ⟨target, hr, ha⟩ := (h path hp).2 hout
    exact ⟨target, hr, ha.mono hsub⟩

/-- What some requirements provide for, of the imports of a package. -/
theorem Universe.Provided.imports {requirements : List Requirement} {sel : Selected}
    {package path : String} (h : u.Provided problem requirements sel package)
    (hc : u.Carries sel.project sel.version package path) :
    ∃ manifest, u.manifestOf sel.project sel.version = .ok manifest ∧
      (problem.place sel.project.root path = .inside →
        ∃ r ∈ requirements, r.project.root = sel.project.root ∧ path ∈ r.packages) ∧
      (problem.place sel.project.root path = .outside →
        ∃ target, u.rootOf path = .ok target ∧
          problem.Asked requirements (some sel.index) manifest target path) := by
  obtain ⟨tree, manifest, imports, ht, hm, hi, himports⟩ := h
  obtain ⟨tree', imports', ht', hi', hpath⟩ := hc
  obtain rfl : tree = tree' := by simpa [ht] using ht'
  obtain rfl : imports = imports' := by simpa [hi] using hi'
  exact ⟨manifest, hm, himports path hpath⟩

/-- A package whose imports are in a footprint is provided for, once the requirements have the
packages of the footprint and what it leads to. -/
theorem provided_of_importsIn {sel : Selected} {tree : PackageTree}
    {manifest : Manifest} {f : Footprint} {groups : List (String × SortedSet String)}
    {requirements : List Requirement} {package : String}
    (ht : u.packagesOf sel.project sel.version = .ok tree)
    (hm : u.manifestOf sel.project sel.version = .ok manifest)
    (hg : u.Groups problem sel.project.root f.external groups)
    (hinside : ∀ path ∈ f.packages, ∃ r ∈ requirements, r.project.root = sel.project.root ∧
      path ∈ r.packages)
    (houtside : ∀ target paths, (target, paths) ∈ groups → ∀ path ∈ paths,
      problem.Asked requirements (some sel.index) manifest target path)
    (hi : tree.ImportsIn (problem.place sel.project.root) f package) :
    u.Provided problem requirements sel package := by
  obtain ⟨imports, himports, hin⟩ := hi
  refine ⟨tree, manifest, imports, ht, hm, himports,
    fun path hp => ⟨fun hplace => ?_, fun hplace => ?_⟩⟩
  · exact hinside path ((hin path hp).1 hplace)
  · have hexternal := (hin path hp).2 hplace
    obtain ⟨target, hr⟩ := hg.owned path hexternal
    obtain ⟨hproblem, hroot⟩ := problem.covers_of_outside hplace
    have hcovers := Universe.covers_of_rootOf hr
    obtain ⟨paths, hgroup, hpath⟩ := hg.complete hexternal hr
      (fun he => by rw [he, hproblem] at hcovers; simp at hcovers)
      (fun he => by rw [he, hroot] at hcovers; simp at hcovers)
    exact ⟨target, hr, houtside target paths hgroup path hpath⟩

/-- What a part of an expansion starts from: packages known before are required already. -/
def Task.Ready : Task → Trial → Prop
  | .expand site _ known, t => ∀ q ∈ known, q ∈ t.packagesOf site.project.root
  | _, _ => True

/-- What a part of an expansion leads to: its packages are provided for, or its requirements are
added. -/
def Task.Served (u : Universe) (problem : Problem) : Task → List Requirement → Prop
  | .expand site packages known, requirements =>
    ∀ q ∈ packages, ¬ q ∈ known → u.Provided problem requirements site q
  | .requireAll site manifest groups, requirements =>
    ∀ target paths, (target, paths) ∈ groups → ∀ path ∈ paths,
      problem.Asked requirements (some site.index) manifest target path
  | .require _ r, requirements => r ∈ requirements

theorem Adds.mem_requirements {n : Nat} {task : Task} {t t' : Trial} {r : Requirement}
    (h : Adds u problem n task t t') (hfits : task.Fits u t)
    (hr : r ∈ t.requirements) : r ∈ t'.requirements := by
  obtain ⟨hc, hkeep, -⟩ := h.brings hfits
  rw [Trial.requirements, hc]
  rcases List.mem_append.1 hr with hr | hr
  · exact List.mem_append_left _ hr
  · exact List.mem_append_right _ (hkeep r hr)

/-- Each package that a later trial newly requires of a project that was decided on is provided
for. -/
def Trial.LeadsTo (u : Universe) (problem : Problem) (t t' : Trial) : Prop :=
  ∀ sel q, t.chosen.selected? sel.project.root = some sel → q ∈ t'.packagesOf sel.project.root →
    q ∈ t.packagesOf sel.project.root ∨ u.Provided problem t'.requirements sel q

theorem Trial.LeadsTo.trans {t t1 t' : Trial} (h1 : t.LeadsTo u problem t1)
    (h2 : t1.LeadsTo u problem t') (hchosen : t1.chosen = t.chosen)
    (hsub : ∀ r ∈ t1.requirements, r ∈ t'.requirements) : t.LeadsTo u problem t' := by
  intro sel q hs hq
  rcases h2 sel q (by rw [hchosen]; exact hs) hq with hq | hq
  · exact (h1 sel q hs hq).imp_right (Universe.Provided.mono hsub)
  · exact .inr hq

/-- A requirement whose packages are known, or whose project is not decided on, adds nothing
to provide for. -/
theorem Trial.leadsTo_require {t : Trial} {r : Requirement}
    (h : ∀ sel q, t.chosen.selected? sel.project.root = some sel →
      sel.project.root = r.project.root →
      q ∈ r.packages → q ∈ t.packagesOf r.project.root) : t.LeadsTo u problem (t.require r) := by
  intro sel q hs hq
  rcases mem_packagesOf_require.1 hq with hq | ⟨hroot, hq⟩
  · exact .inl hq
  · exact .inl (hroot ▸ h sel q hs hroot.symm hq)

/-- A requirement on a project that was decided on leaves its packages to be provided for, as far as
they are new. -/
theorem Trial.LeadsTo.of_require {t t' : Trial} {r : Requirement} {site : Selected}
    (h : (t.require r).LeadsTo u problem t')
    (hs : t.chosen.selected? r.project.root = some site)
    (hnew : ∀ q ∈ r.packages,
      q ∈ t.packagesOf r.project.root ∨ u.Provided problem t'.requirements site q) :
    t.LeadsTo u problem t' := by
  intro sel q hsel hq
  rcases h sel q hsel hq with hq | hq
  · rcases mem_packagesOf_require.1 hq with hold | ⟨hroot, hpackages⟩
    · exact .inl hold
    · obtain rfl : site = sel := by
        rw [hroot, hsel] at hs
        exact (Option.some.inj hs).symm
      rw [← hroot]
      exact hnew q hpackages
  · exact .inr hq

theorem Trial.LeadsTo.of_requireInternal {t t' : Trial} {site : Selected}
    {packages : SortedSet String} (h : (t.requireInternal site packages).LeadsTo u problem t')
    (hs : t.chosen.selected? site.project.root = some site)
    (hnew : ∀ q ∈ packages, u.Provided problem t'.requirements site q) :
    t.LeadsTo u problem t' := by
  unfold requireInternal at h
  split at h
  · exact h
  · exact h.of_require hs fun q hq => .inr (hnew q hq)

/-- Packages that a footprint names are provided for, once what it leads to is. -/
theorem Adds.provides_walked {n : Nat} {site : Selected} {packages known : SortedSet String}
    {t t' : Trial} {tree : PackageTree} {manifest : Manifest} {f : Footprint}
    {groups : List (String × SortedSet String)}
    (ht : u.packagesOf site.project site.version = .ok tree)
    (hm : u.manifestOf site.project site.version = .ok manifest)
    (hf : tree.footprint? (problem.place site.project.root) packages known = .ok f)
    (hg : u.Groups problem site.project.root f.external groups)
    (h : Adds u problem n (.requireAll site manifest groups)
      (t.requireInternal site (f.packages.diff known)) t')
    (hfits : Task.Fits u (.requireAll site manifest groups)
      (t.requireInternal site (f.packages.diff known)))
    (hknown : ∀ q ∈ known, q ∈ t.packagesOf site.project.root)
    (hserved : Task.Served u problem (.requireAll site manifest groups) t'.requirements) :
    ∀ q ∈ f.packages, ¬ q ∈ known → u.Provided problem t'.requirements site q := by
  have hinside : ∀ path ∈ f.packages, ∃ r ∈ t'.requirements,
      r.project.root = site.project.root ∧ path ∈ r.packages := by
    intro path hpath
    have hq : path ∈ (t.requireInternal site (f.packages.diff known)).packagesOf
        site.project.root := by
      refine Trial.mem_packagesOf_requireInternal.2 ?_
      by_cases hk : path ∈ known
      · exact .inl (hknown path hk)
      · exact .inr ⟨rfl, SortedSet.mem_diff.2 ⟨hpath, hk⟩⟩
    obtain ⟨r, hr, hroot, hq⟩ := Trial.mem_packagesOf.1 hq
    exact ⟨r, h.mem_requirements hfits hr, hroot, hq⟩
  intro q hq hk
  exact provided_of_importsIn ht hm hg hinside hserved
    (((PackageTree.footprint_ok hf).2.2 q hq).resolve_left hk)

/-- What an expansion newly requires of projects that were decided on is provided for, and what it
is about is served. -/
theorem Adds.provides {n : Nat} {task : Task} {t t' : Trial} (h : Adds u problem n task t t')
    (hfits : task.Fits u t) (hready : task.Ready t) :
    task.Served u problem t'.requirements ∧ t.LeadsTo u problem t' := by
  induction h with
  | @walked n site packages known t tree manifest f groups t' hp hm hf hg h ih =>
    have hfits' : Task.Fits u (.requireAll site manifest groups)
        (t.requireInternal site (f.packages.diff known)) := hfits.walked hg
    obtain ⟨hserved, hnew⟩ := ih hfits' trivial
    have hprovided := h.provides_walked hp hm hf hg hfits' hready hserved
    refine ⟨fun q hq => hprovided q ((PackageTree.footprint_ok hf).2.1 q hq),
      hnew.of_requireInternal hfits.selected fun q hq => ?_⟩
    -- the rest of the footprint is required of the project on trial
    obtain ⟨hvisit, hk⟩ := SortedSet.mem_diff.1 hq
    exact hprovided q hvisit hk
  | done => exact ⟨by simp [Task.Served], fun _ _ _ hq => .inl hq⟩
  | @next n site manifest target packages rest t t1 t' h1 h2 ih1 ih2 =>
    have hfits1 : Task.Fits u (.require site
        (t.external site target (problem.termsFor manifest target) packages)) t := hfits.first
    obtain ⟨hserved1, hnew1⟩ := ih1 hfits1 trivial
    have hchosen := (h1.brings hfits1).1
    have hfits2 : Task.Fits u (.requireAll site manifest rest) t1 := hfits.rest hchosen
    obtain ⟨hserved2, hnew2⟩ := ih2 hfits2 trivial
    have hsub : ∀ r ∈ t1.requirements, r ∈ t'.requirements := fun r => h2.mem_requirements hfits2
    refine ⟨fun target' paths hmem path hpath => ?_, hnew1.trans hnew2 hchosen hsub⟩
    rcases List.mem_cons.1 hmem with heq | hmem
    · obtain ⟨rfl, rfl⟩ := Prod.mk.inj heq
      exact ⟨_, hsub _ hserved1, rfl, rfl, rfl, hpath, rfl⟩
    · exact hserved2 target' paths hmem path hpath
  | @waits n site r t hs hw =>
    refine ⟨Trial.mem_requirements_require.2 (.inr rfl),
      Trial.leadsTo_require fun sel q hsel hroot => ?_⟩
    rw [hroot, hs] at hsel
    simp at hsel
  | @known n site r t sel' hs hc hk =>
    exact ⟨Trial.mem_requirements_require.2 (.inr rfl), Trial.leadsTo_require fun _ q _ _ => hk q⟩
  | @fresh n site r t sel' q' t' hs hc hq' hn' h ih =>
    have hroot' := PartialSolution.selected?_root hs
    have hfits' : Task.Fits u (.expand sel' (r.packages.diff (t.packagesOf r.project.root))
        (t.packagesOf r.project.root)) (t.require r) := .of_selected? hs
    have hready' : Task.Ready (.expand sel' (r.packages.diff (t.packagesOf r.project.root))
        (t.packagesOf r.project.root)) (t.require r) := fun q hq =>
      Trial.mem_packagesOf_require.2 (.inl (hroot' ▸ hq))
    obtain ⟨hserved, hnew⟩ := ih hfits' hready'
    refine ⟨h.mem_requirements hfits' (Trial.mem_requirements_require.2 (.inr rfl)),
      hnew.of_require hs fun q hq => ?_⟩
    -- what is new of the requirement, the expansion serves
    by_cases hk : q ∈ t.packagesOf r.project.root
    · exact .inl hk
    · exact .inr (hserved q (SortedSet.mem_diff.2 ⟨hq, hk⟩) hk)

end Depsolve
