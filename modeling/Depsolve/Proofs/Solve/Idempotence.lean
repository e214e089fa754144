import Depsolve.Proofs.Solve.Least
import Depsolve.Proofs.Solve.Termination

/-!
# Solving again with the lock

A solution whose lock is given back to the solver is found again, without a single step back: the
search keeps to the decisions of the first one (`Solver.KeepsTo`), for the locked version is the
first candidate of every project, and trying it never fails.
-/

namespace Depsolve

variable {u : Universe} {problem : Problem} {options : SolveOptions} {limits : Limits}
  {p : PartialSolution}

/-! ## The lock does not change what is needed -/

namespace Picks

variable {picks : Picks} {lock : Option Lock}

theorem Needs.with_lock {root q : String} (h : picks.Needs u problem root q) :
    picks.Needs u { problem with lock } root q := by
  induction h with
  | base hp hr => exact .base hp hr
  | inside _ hi hplace ih => exact .inside ih hi hplace
  | outside _ hi hplace hr ih => exact .outside ih hi hplace hr

theorem Needs.of_with_lock {root q : String} (h : picks.Needs u { problem with lock } root q) :
    picks.Needs u problem root q := by
  have h' : picks.Needs u { ({ problem with lock } : Problem) with lock := problem.lock } root q :=
    h.with_lock
  exact h'

theorem Asks.of_with_lock {root : String} {terms : Terms}
    (h : picks.Asks u { problem with lock } root terms) : picks.Asks u problem root terms := by
  cases h with
  | base hp hr => exact .base hp hr
  | outside hn hi hplace hr hpick hm => exact .outside hn.of_with_lock hi hplace hr hpick hm

theorem Consistent.with_lock (h : picks.Consistent u problem) :
    picks.Consistent u { problem with lock } where
  rooted := h.rooted
  baseOwned := h.baseOwned
  provided hn := h.provided hn.of_with_lock
  owned hn := h.owned hn.of_with_lock
  accords ha := h.accords ha.of_with_lock

end Picks

/-! ## Keeping to the decisions of a finished search -/

/-- A partial solution has decided on a version of a project, from the same place. -/
def PartialSolution.Decides (p : PartialSolution) (project : Project) (v : Version) : Prop :=
  ∃ sel, p.selected? project.root = some sel ∧ sel.version = v ∧
    sel.project.location = project.location

/-- A search decides as a finished one did, with every candidate at hand led by the version decided
on there, and has had no failure. -/
structure Solver.KeepsTo (s : Solver Unit) (p : PartialSolution) (search : Search) : Prop where
  grounded : s.Grounded search
  /-- It decides as the other. -/
  follows : ∀ d ∈ search.chosen.decisions, p.Decides d.frame.project d.version
  /-- It is about to decide as the other. -/
  leads : ∀ f, search.phase = .trying f → ∃ v left, f.candidates = v :: left ∧ p.Decides f.project v
  memo : search.memo.nogoods = []
  backtracks : search.backtracks = 0

theorem PartialSolution.Decides.backs (hp : p.Sound u problem) {i : Nat} {project : Project}
    {v : Version} (h : p.Decides project v) : p.picks.Backs ⟨i, project, v⟩ := by
  obtain ⟨sel, hs, rfl, hloc⟩ := h
  obtain ⟨d, hd, -, heq⟩ := selected?_eq_some hs
  obtain ⟨r, hr, -⟩ := hp.present d (mem_of_decision? hd)
  refine ⟨sel.project, sel.version, picks_of_selected? hs, selected?_root hs, hloc, ?_⟩
  rw [heq]
  exact .refl hr

theorem Solver.KeepsTo.backsAll {s : Solver Unit} {search : Search} (h : s.KeepsTo p search)
    (hp : p.Sound u problem) : p.picks.BacksAll search.chosen := by
  intro root sel hs
  obtain ⟨d, hd, -, heq⟩ := PartialSolution.selected?_eq_some hs
  rw [heq]
  exact (h.follows d (PartialSolution.mem_of_decision? hd)).backs hp

/-- A lock has the decisions of a finished search. -/
def Lock.Records (lock : Lock) (p : PartialSolution) : Prop :=
  ∀ root sel, p.selected? root = some sel → ∃ entry, lock.find? root = some entry ∧
    entry.version = sel.version ∧ entry.project = sel.project

theorem PartialSolution.Sound.records (hp : p.Sound u problem) {lock : Lock}
    (hlock : Lock.ofProjects (p.decisions.map p.lockedProject) = .ok lock) : lock.Records p := by
  intro root sel hs
  obtain ⟨-, hmem⟩ := Lock.ofProjects_ok hlock
  obtain ⟨d, hd, hroot, heq⟩ := selected?_eq_some hs
  have hentry : p.lockedProject d ∈ lock.projects :=
    (hmem _).2 (List.mem_map.2 ⟨d, mem_of_decision? hd, rfl⟩)
  cases hf : lock.find? root with
  | none =>
    have hne : ¬ decide (d.root = root) = true := List.find?_eq_none.1 hf _ hentry
    exact absurd (decide_eq_true hroot) hne
  | some entry =>
    have hroot' : entry.project.root = root := by simpa using List.find?_some hf
    obtain ⟨e, he, rfl⟩ := List.mem_map.1 ((hmem _).1 (List.mem_of_find?_eq_some hf))
    obtain rfl : d = e :=
      List.inj_on_of_nodup_map hp.distinct (mem_of_decision? hd) he (hroot.trans hroot'.symm)
    exact ⟨_, rfl, by rw [heq]; rfl, by rw [heq]; rfl⟩

section Keep

variable {lock : Lock} {search : Search}

/-- What the search waits for was decided on before, from the same place. -/
theorem Solver.KeepsTo.exists_pick (hp : p.Sound u problem)
    (hconsistent : p.picks.Consistent u { problem with lock := some lock })
    (h : (u.solver { problem with lock := some lock } options limits).KeepsTo p search)
    {project : Project} {requirements : List Requirement}
    (hmem : (project, requirements) ∈ search.chosen.waiting) :
    ∃ sel tree, p.selected? project.root = some sel ∧
      u.packagesOf sel.project sel.version = .ok tree ∧
        sel.project.location = project.location := by
  obtain ⟨-, rfl, r, hr, rfl⟩ := PartialSolution.of_mem_waiting hmem
  have hmeets := h.grounded.reached.meets hconsistent (h.backsAll hp) r
    (PartialSolution.mem_requirementsOn.1 hr).1
  obtain ⟨q, hn⟩ := hmeets.needed
  obtain ⟨project', version, tree, -, hpick, ht, -⟩ := hconsistent.provided hn
  have hloc := hmeets.located _ _ hpick
  obtain ⟨sel, hs, rfl, rfl⟩ := PartialSolution.picks_eq_some hpick
  exact ⟨sel, tree, hs, ht, hloc⟩

/-- The first candidate of a project that waits is the version decided on before. -/
theorem Solver.KeepsTo.offers_head (hp : p.Sound u problem)
    (hconsistent : p.picks.Consistent u { problem with lock := some lock })
    (hrecords : lock.Records p) (hall : options.changeAll = false)
    (hnone : options.toChange = .empty)
    (h : (u.solver { problem with lock := some lock } options limits).KeepsTo p search)
    {project : Project} {requirements : List Requirement} {candidates : List Version}
    (hmem : (project, requirements) ∈ search.chosen.waiting)
    (hoffers :
      u.Offers { problem with lock := some lock } options project requirements candidates) :
    ∃ v left, candidates = v :: left ∧ p.Decides project v := by
  obtain ⟨sel, -, hs, -, hloc⟩ := h.exists_pick hp hconsistent hmem
  obtain ⟨-, rfl, -⟩ := PartialSolution.of_mem_waiting hmem
  have hsound := PartialSolution.sound_of_reached h.grounded.reached
  have hmeets := h.grounded.reached.meets hconsistent (h.backsAll hp)
  obtain ⟨entry, hfind, hversion, hentry⟩ := hrecords _ _ hs
  -- the locked version is accepted, since the requirements so far are in force in the
  -- finished search
  have hprefers : Problem.Prefers { problem with lock := some lock } options project
      (search.chosen.requirementsOn project.root) entry := by
    refine ⟨hall, by rw [hnone]; rfl, ⟨lock, rfl, hfind⟩, by rw [hentry, hloc],
      admittedBy_iff.2 fun x hx => ?_⟩
    obtain ⟨hx, hroot⟩ := PartialSolution.mem_requirementsOn.1 hx
    rw [hversion]
    exact (hmeets x hx).admits hconsistent (fun hi => (hsound.internal x hx hi).1)
      (hroot ▸ PartialSolution.picks_of_selected? hs)
  have hhas : u.Has project entry.version := by
    obtain ⟨d, hd, -, heq⟩ := PartialSolution.selected?_eq_some hs
    obtain ⟨rev, hrev, hthere⟩ := hp.present d (PartialSolution.mem_of_decision? hd)
    have hroot := PartialSolution.selected?_root hs
    rw [heq] at hroot hloc hversion
    exact ⟨rev, by rw [hversion]; exact hrev,
      by rw [← u.hasRevision_congr rev hroot hloc]; exact hthere⟩
  have hhead := hoffers.locked entry hprefers hhas
  cases candidates with
  | nil => simp at hhead
  | cons v left =>
    obtain rfl : v = entry.version := by simpa using hhead
    exact ⟨_, left, rfl, sel, hs, hversion.symm, hloc⟩

/-- Every project that waits can be reached. -/
theorem Solver.KeepsTo.exists_snapshots (hp : p.Sound u problem)
    (hconsistent : p.picks.Consistent u { problem with lock := some lock })
    (h : (u.solver { problem with lock := some lock } options limits).KeepsTo p search)
    {project : Project} {requirements : List Requirement}
    (hmem : (project, requirements) ∈ search.chosen.waiting) :
    ∃ snapshots, u.snapshots project = .ok snapshots := by
  obtain ⟨sel, tree, hs, ht, hloc⟩ := h.exists_pick hp hconsistent hmem
  obtain ⟨s, hsnapshot, -⟩ := Universe.packagesOf_eq_ok_iff.1 ht
  obtain ⟨snapshots, hsnap, -⟩ := Universe.snapshot_eq_ok_iff.1 hsnapshot
  exact ⟨snapshots, by rw [← hsnap, u.snapshots_congr (PartialSolution.selected?_root hs) hloc]⟩

/-- So a next project can be picked. -/
theorem Solver.KeepsTo.exists_choose (hp : p.Sound u problem)
    (hconsistent : p.picks.Consistent u { problem with lock := some lock })
    (h : (u.solver { problem with lock := some lock } options limits).KeepsTo p search) :
    ∃ choice, ((u.solver { problem with lock := some lock } options limits).choose
      search.chosen).outcome = .ok choice :=
  exists_chooseFrom fun _ _ hmem => h.exists_snapshots hp hconsistent hmem

/-- There is no failure to find again. -/
theorem Solver.KeepsTo.consult {s : Solver Unit} (h : s.KeepsTo p search) (f : Frame)
    (v : Version) : search.consult f v = (none, search.memo) := by
  simp [Search.consult, FailureMemo.consult, FailureMemo.find?, h.memo]

/-- The next decision of the search backs with the others. -/
theorem Solver.KeepsTo.backsAll_trial (hp : p.Sound u problem) {s : Solver Unit}
    (h : s.KeepsTo p search) {f : Frame} {v : Version}
    (hnone : search.chosen.selected? f.project.root = none) (hd : p.Decides f.project v) :
    p.picks.BacksAll (search.chosen.trial f v).chosen := by
  intro root sel hs
  by_cases hroot : f.project.root = root
  · subst hroot
    rw [PartialSolution.trial_selected?_next hnone] at hs
    obtain rfl := Option.some.inj hs
    exact hd.backs hp
  · refine h.backsAll hp root sel ?_
    rw [← hs, PartialSolution.trial]
    exact (PartialSolution.selected?_push_of_ne (d := ⟨f, v, []⟩) hroot).symm

/-- The candidate that is tried next was decided on before. -/
theorem Solver.KeepsTo.decides {s : Solver Unit} (h : s.KeepsTo p search) {f : Frame} {v : Version}
    {left : List Version} (hphase : search.phase = .trying f) (hcand : f.candidates = v :: left) :
    p.Decides f.project v := by
  obtain ⟨v', left', hhead, hdecides⟩ := h.leads f hphase
  obtain ⟨rfl, -⟩ : v = v' ∧ left = left' := by simpa [hcand] using hhead
  exact hdecides

/-- Trying what was decided on before does not fail. -/
theorem Solver.KeepsTo.attempt_ok (hp : p.Sound u problem)
    (hconsistent : p.picks.Consistent u { problem with lock := some lock })
    (hdepth : u.importCount < limits.depth)
    (h : (u.solver { problem with lock := some lock } options limits).KeepsTo p search)
    {f : Frame} {v : Version} {left : List Version} (hphase : search.phase = .trying f)
    (hcand : f.candidates = v :: left) : ∃ added,
      ((u.solver { problem with lock := some lock } options limits).attempt search.chosen
        (f.leaving left) v).outcome = .ok (.ok added) := by
  have ho := h.grounded.opens f hphase
  have hmeets := h.grounded.reached.meets hconsistent (h.backsAll hp)
  have hsound := PartialSolution.sound_of_reached h.grounded.reached
  have hd : p.Decides f.project v := h.decides hphase hcand
  have hb := h.backsAll_trial (f := f.leaving left) hp ho.selected? hd
  rcases attempt_of_backed (f := f.leaving left) hconsistent hsound ho hb hmeets with he |
    ⟨added, ha, -⟩
  · exact absurd he (attempt_not_exhausted (f := f.leaving left) hdepth ho.selected?)
  · exact ⟨added, ha⟩

/-- A step of a search that keeps to a finished one succeeds, and keeps to it. -/
theorem Solver.KeepsTo.step (hp : p.Sound u problem)
    (hconsistent : p.picks.Consistent u { problem with lock := some lock })
    (hrecords : lock.Records p) (hall : options.changeAll = false)
    (hnone : options.toChange = .empty) (hdepth : u.importCount < limits.depth)
    (h : (u.solver { problem with lock := some lock } options limits).KeepsTo p search) :
    ∃ progress, ((u.solver { problem with lock := some lock } options limits).step search).outcome =
      .ok progress ∧ ∀ next, progress = .ongoing next →
        (u.solver { problem with lock := some lock } options limits).KeepsTo p next := by
  have hsteps := steps u { problem with lock := some lock } options limits search
  generalize ((u.solver { problem with lock := some lock } options limits).step search).outcome =
    res at hsteps
  have hmoves : ∀ next, res = .ok (.ongoing next) →
      (u.solver { problem with lock := some lock } options limits).Grounded next :=
    fun next hnext => h.grounded.moves (hsteps.moves hnext)
  cases hsteps with
  | unanswered hphase hc =>
    obtain ⟨choice, hchoice⟩ := h.exists_choose hp hconsistent
    simp [hchoice] at hc
  | complete hphase hc => exact ⟨_, rfl, by simp⟩
  | @select project candidates hphase hc =>
    refine ⟨_, rfl, fun next hnext => ?_⟩
    obtain rfl := Progress.ongoing.inj hnext
    refine ⟨hmoves _ rfl, h.follows, fun f hf => ?_, h.memo, h.backtracks⟩
    obtain rfl : Frame.start project candidates = f := Phase.trying.inj hf
    rcases chooseFrom_fits hc with hbest | ⟨-, requirements, hmem, hcand⟩
    · simp at hbest
    · exact h.offers_head hp hconsistent hrecords hall hnone hmem (candidates_offers hcand)
  | @stuck root requirements hphase hc =>
    obtain ⟨project, -, hmem, hcand⟩ := chooseFrom_fits hc
    obtain ⟨v, left, hhead, -⟩ :=
      h.offers_head hp hconsistent hrecords hall hnone hmem (candidates_offers hcand)
    simp at hhead
  | @spent f hphase hcand =>
    obtain ⟨v, left, hhead, -⟩ := h.leads f hphase
    simp [hcand] at hhead
  | prune hphase hcand hc =>
    rw [h.consult] at hc
    simp at hc
  | @accept f v left memo added hphase hcand hc ha =>
    refine ⟨_, rfl, fun next hnext => ?_⟩
    obtain rfl := Progress.ongoing.inj hnext
    rw [h.consult] at hc
    obtain rfl : search.memo = memo := (Prod.mk.inj hc).2
    refine ⟨hmoves _ rfl, fun d hd => ?_, fun f hf => by simp [Search.accept] at hf, h.memo,
      h.backtracks⟩
    rcases List.mem_append.1 hd with hd | hd
    · exact h.follows d hd
    · have hdecides : p.Decides f.project v := h.decides hphase hcand
      rw [List.mem_singleton.1 hd]
      exact hdecides
  | @reject f v left memo failure hphase hcand hc ha =>
    obtain ⟨added, hadded⟩ := h.attempt_ok hp hconsistent hdepth hphase hcand
    simp [ha] at hadded
  | @halt f v left memo e hphase hcand hc ha =>
    obtain ⟨added, hadded⟩ := h.attempt_ok hp hconsistent hdepth hphase hcand
    simp [ha] at hadded

/-- A run that is given the lock of a finished search keeps to the decisions there. -/
theorem Solver.Visits.keepsTo (hp : p.Sound u problem)
    (hconsistent : p.picks.Consistent u { problem with lock := some lock })
    (hrecords : lock.Records p) (hall : options.changeAll = false)
    (hnone : options.toChange = .empty) {search : Search}
    (h : (u.solver { problem with lock := some lock } options u.limits).Visits search) :
    (u.solver { problem with lock := some lock } options u.limits).KeepsTo p search := by
  induction h with
  | start hbase => exact ⟨.start hbase, by simp [Search.start], by simp [Search.start], rfl, rfl⟩
  | @step search next _ hstep ih =>
    obtain ⟨progress, hprogress, hkeeps⟩ :=
      ih.step hp hconsistent hrecords hall hnone (Nat.lt_succ_self _)
    obtain rfl : progress = .ongoing next := Except.ok.inj (hprogress.symm.trans hstep)
    exact hkeeps next rfl

/-- A run that is given the lock of a finished search succeeds. -/
theorem Solver.exists_run_keeping (hp : p.Sound u problem)
    (hconsistent : p.picks.Consistent u { problem with lock := some lock })
    (hrecords : lock.Records p) (hall : options.changeAll = false)
    (hnone : options.toChange = .empty) {base : List Requirement}
    (hbase : (u.solver problem options u.limits).baseRequirements.outcome = .ok base) :
    ∃ solution search,
      (u.solver { problem with lock := some lock } options u.limits).run.outcome = .ok solution ∧
        (u.solver { problem with lock := some lock } options u.limits).KeepsTo p search ∧
          search.chosen.waiting = [] ∧
            Solution.ofSearch { problem with lock := some lock } options search = .ok solution := by
  have hbase' :
      (u.solver { problem with lock := some lock } options u.limits).baseRequirements.outcome =
        .ok base := hbase
  cases hrun : (u.solver { problem with lock := some lock } options u.limits).run.outcome with
  | error e =>
    rw [run_eq_runBy] at hrun
    rcases runBy_stop walks_step hrun with he | ⟨a, ha, hstop⟩
    · simp [hbase'] at he
    · obtain ⟨progress, hprogress, -⟩ := (Visits.keepsTo hp hconsistent hrecords hall hnone ha).step
        hp hconsistent hrecords hall hnone (Nat.lt_succ_self _)
      simp [hstop] at hprogress
  | ok solution =>
    obtain ⟨search, hvisits, hwaiting, hsol⟩ := run_ok hrun
    exact ⟨solution, search, rfl, Visits.keepsTo hp hconsistent hrecords hall hnone hvisits,
      hwaiting, hsol⟩

end Keep

/-! ## The same lock again -/

/-- What a lock says of a project: its root, where it is from, its version and its packages. -/
def LockedProject.contents (entry : LockedProject) : String × String × Version × SortedSet String :=
  (entry.project.root, entry.project.location, entry.version, entry.packages)

/-- Two locks say the same of the same projects, and were found in the same way. -/
structure Lock.Repeats (a b : Lock) : Prop where
  /-- The projects are locked in the same way, in the same order. -/
  projects : a.projects.map LockedProject.contents = b.projects.map LockedProject.contents
  /-- They were found in the same way. -/
  solveMeta : a.solveMeta = b.solveMeta

namespace Lock

/-- Locks by ascending root that say the same say it in the same order. -/
theorem contents_eq {a b : List LockedProject}
    (ha : a.Pairwise fun x y => x.project.root < y.project.root)
    (hb : b.Pairwise fun x y => x.project.root < y.project.root)
    (h : ∀ c, c ∈ a.map LockedProject.contents ↔ c ∈ b.map LockedProject.contents) :
    a.map LockedProject.contents = b.map LockedProject.contents := by
  have hsorted : ∀ l : List LockedProject, l.Pairwise (fun x y => x.project.root < y.project.root) →
      (l.map LockedProject.contents).Pairwise fun x y => x.1 < y.1 := fun l hl =>
    List.pairwise_map.2 hl
  have hnodup : ∀ l : List LockedProject, l.Pairwise (fun x y => x.project.root < y.project.root) →
      (l.map LockedProject.contents).Nodup := by
    intro l hl
    refine (hsorted l hl).imp fun {x y} hlt => ?_
    rintro rfl
    exact Std.lt_irrefl hlt
  refine List.Perm.eq_of_pairwise ?_ (hsorted a ha) (hsorted b hb) ?_
  · intro x y _ _ hxy hyx
    exact absurd hyx (Std.not_gt_of_lt hxy)
  · exact (List.perm_ext_iff_of_nodup (hnodup a ha) (hnodup b hb)).2 h

end Lock

section Keep

variable {lock : Lock} {search : Search}

/-- What is locked for a project after a search that has kept to a finished one is what was
locked before. -/
theorem Solver.KeepsTo.contents_eq (hreached : (u.solver problem options limits).Reached p)
    (hc : p.Complete)
    (h : (u.solver { problem with lock := some lock } options limits).KeepsTo p search)
    (hcomplete : search.chosen.Complete) {d e : Decision} (hd : d ∈ search.chosen.decisions)
    (he : e ∈ p.decisions) (hroot : d.root = e.root) :
    (search.chosen.lockedProject d).contents = (p.lockedProject e).contents := by
  have hp := PartialSolution.sound_of_reached hreached
  have hconsistent := hp.consistent_picks hc
  obtain ⟨sel, hs, hversion, hloc⟩ := h.follows d hd
  obtain ⟨i, hsel⟩ := hp.selected?_of_mem he
  have hsel' : p.selected? d.frame.project.root = some (PartialSolution.selection i e) := by
    rw [show d.frame.project.root = e.root from hroot]
    exact hsel
  obtain rfl : PartialSolution.selection i e = sel := by simpa [hsel'] using hs
  have hpackages : packagesOf (search.chosen.requirementsOn d.root) =
      packagesOf (p.requirementsOn e.root) := by
    refine SortedSet.ext fun q => ?_
    rw [PartialSolution.mem_packagesOf_iff_needs h.grounded.reached hcomplete hconsistent.with_lock
      (h.backsAll hp),
      PartialSolution.mem_packagesOf_iff_needs hreached hc hconsistent hp.backsAll_picks, hroot]
    exact ⟨Picks.Needs.of_with_lock, Picks.Needs.with_lock⟩
  have hrelative : (search.chosen.lockedProject d).packages = (p.lockedProject e).packages := by
    simp only [PartialSolution.lockedProject]
    rw [hpackages, hroot]
  have hversion' : e.version = d.version := hversion
  have hloc' : e.frame.project.location = d.frame.project.location := hloc
  have hroot' : d.frame.project.root = e.frame.project.root := hroot
  unfold LockedProject.contents
  rw [hrelative]
  simp only [PartialSolution.lockedProject, hversion', hloc', hroot']

/-- A search that has kept to a finished one decides on the same projects. -/
theorem Solver.KeepsTo.exists_decision_iff (hreached : (u.solver problem options limits).Reached p)
    (hc : p.Complete)
    (h : (u.solver { problem with lock := some lock } options limits).KeepsTo p search)
    (hcomplete : search.chosen.Complete) {root : String} :
    (∃ d ∈ search.chosen.decisions, d.root = root) ↔ ∃ e ∈ p.decisions, e.root = root := by
  have hp := PartialSolution.sound_of_reached hreached
  have hconsistent := hp.consistent_picks hc
  constructor
  · rintro ⟨d, hd, rfl⟩
    obtain ⟨sel, hs, -⟩ := h.follows d hd
    obtain ⟨e, he, hroot, -⟩ := PartialSolution.selected?_eq_some hs
    exact ⟨e, PartialSolution.mem_of_decision? he, hroot⟩
  -- a project that the finished search decided on is needed, so it is required again
  · rintro ⟨e, he, rfl⟩
    obtain ⟨r, hr, -, hproject⟩ := hp.required e he
    obtain ⟨q, hn⟩ := (hreached.meets hconsistent hp.backsAll_picks r hr).needed
    have hq := (PartialSolution.mem_packagesOf_iff_needs h.grounded.reached hcomplete
      hconsistent.with_lock (h.backsAll hp)).2 hn.with_lock
    obtain ⟨r', hr', -⟩ := mem_packagesOf.1 hq
    obtain ⟨hr', hroot⟩ := PartialSolution.mem_requirementsOn.1 hr'
    obtain ⟨sel, hs⟩ := hcomplete r' hr'
    obtain ⟨d, hd, hroot', -⟩ := PartialSolution.selected?_eq_some hs
    refine ⟨d, PartialSolution.mem_of_decision? hd, ?_⟩
    rw [hroot', hroot, hproject]
    rfl

/-- The lock of a search that has kept to a finished one says what the lock before said. -/
theorem Solver.KeepsTo.contents_lock_eq (hreached : (u.solver problem options limits).Reached p)
    (hc : p.Complete)
    (h : (u.solver { problem with lock := some lock } options limits).KeepsTo p search)
    (hcomplete : search.chosen.Complete) {a b : Lock}
    (ha : Lock.ofProjects (search.chosen.decisions.map search.chosen.lockedProject) = .ok a)
    (hb : Lock.ofProjects (p.decisions.map p.lockedProject) = .ok b) :
    a.projects.map LockedProject.contents = b.projects.map LockedProject.contents := by
  obtain ⟨hascending, hmem⟩ := Lock.ofProjects_ok ha
  obtain ⟨hascending', hmem'⟩ := Lock.ofProjects_ok hb
  refine Lock.contents_eq hascending hascending' fun c => ?_
  simp only [List.mem_map, hmem, hmem', exists_exists_and_eq_and]
  constructor
  · rintro ⟨d, hd, rfl⟩
    obtain ⟨e, he, hroot⟩ := (h.exists_decision_iff hreached hc hcomplete).1 ⟨d, hd, rfl⟩
    exact ⟨e, he, (h.contents_eq hreached hc hcomplete hd he hroot.symm).symm⟩
  · rintro ⟨e, he, rfl⟩
    obtain ⟨d, hd, hroot⟩ := (h.exists_decision_iff hreached hc hcomplete).2 ⟨e, he, rfl⟩
    exact ⟨d, hd, h.contents_eq hreached hc hcomplete hd he hroot⟩

end Keep

/-- A problem that is solved again with the lock of its solution has a solution with the same lock,
found without a step back, if nobody cancels the run and no project is to change. -/
theorem Provider.solve_own_lock {p p' : Provider} {problem : Problem} {options : SolveOptions}
    {solution : Solution} (hworld : p'.world = p.world) (hcancel : p'.isCancelled = false)
    (hpatience : p'.patience = none) (hall : options.changeAll = false)
    (hnone : options.toChange = .empty) (h : (p.solve problem options).1 = .ok solution) :
    ∃ solution', (p'.solve { problem with lock := some solution.lock } options).1 = .ok solution' ∧
      solution'.lock.Repeats solution.lock ∧ solution'.backtracks = 0 := by
  rw [solve_eq_of_calm hcancel hpatience, hworld]
  rcases p.solve_eq problem options with he | he
  · simp [he] at h
  · rw [he] at h
    obtain ⟨search, hvisits, hwaiting, hsol⟩ := Solver.run_ok h
    have hreached := hvisits.grounded.reached
    obtain ⟨base, hbase⟩ := hreached.exists_base
    obtain ⟨lock, hlock, heq, -⟩ := Solution.ofSearch_ok hsol
    have hsound := PartialSolution.sound_of_reached hreached
    have hc := PartialSolution.complete_of_waiting hwaiting
    have hrecords : solution.lock.Records search.chosen := by
      have hfound := hsound.records hlock
      rw [heq]
      exact hfound
    obtain ⟨solution', again, hrun, hkeeps, hwaiting', hsol'⟩ := Solver.exists_run_keeping hsound
      (hsound.consistent_picks hc).with_lock hrecords hall hnone hbase
    obtain ⟨lock', hlock', heq', hbacktracks⟩ := Solution.ofSearch_ok hsol'
    have hcontents := hkeeps.contents_lock_eq hreached hc
      (PartialSolution.complete_of_waiting hwaiting') hlock' hlock
    refine ⟨solution', hrun, ⟨?_, ?_⟩, hbacktracks.trans hkeeps.backtracks⟩
    · rw [heq', heq]
      exact hcontents
    · rw [heq', heq]
      rfl

/-- The lock of the toolchain is found again. -/
theorem Provider.solve_own_lock_of_toolchain : ∃ solution solution',
    ((Provider.new .withToolchain).solve .usingToolchain .keep).1 = .ok solution ∧
      (∀ entry, entry ∈ solution.lock.projects ↔ entry ∈ LockedProject.toolchain) ∧
        ((Provider.new .withToolchain).solve
          { Problem.usingToolchain with lock := some solution.lock } .keep).1 = .ok solution' ∧
          solution'.lock.Repeats solution.lock ∧ solution'.backtracks = 0 := by
  obtain ⟨solution, hsolve, hlocked, -⟩ := Universe.exists_solve_withToolchain
  obtain ⟨solution', hagain, hrepeats, hbacktracks⟩ :=
    @solve_own_lock _ (.new .withToolchain) _ _ _ rfl rfl rfl rfl rfl hsolve
  exact ⟨solution, solution', hsolve, hlocked, hagain, hrepeats, hbacktracks⟩

end Depsolve
