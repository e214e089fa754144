import Depsolve.Proofs.Solve.Least

/-!
# What the decisions to blame explain

A search goes back to the decisions to blame for a failure, so these have to explain it: no
consistent assignment backs them and the version that failed (`Expands.not_blamed`). The decisions
that a requirement goes back to have to explain it as well. They do if its owner brought it in
through at most one other project (`Adds.explains`); the projects between the owner and the depender
are not among them.
-/

namespace Depsolve

variable {u : Universe} {problem : Problem} {options : SolveOptions} {limits : Limits}
  {picks : Picks} {p : PartialSolution}

/-- An assignment backs what is selected by some decisions. -/
def Picks.BacksOf (picks : Picks) (p : PartialSolution) (culprits : SortedSet Nat) : Prop :=
  ∀ root sel, p.selected? root = some sel → sel.index ∈ culprits → picks.Backs sel

/-! ## Requirements are explained -/

/-- An expansion that may nest at most so deep is of a backed version, or one level below. -/
def Task.Near (picks : Picks) (n : Nat) : Task → Prop
  | .expand site _ _ => n ≤ 1 ∨ (n ≤ 2 ∧ picks.Backs site)
  | .requireAll site _ _ => n = 0 ∨ (n ≤ 1 ∧ picks.Backs site)
  | .require site _ => n = 0 ∨ (n ≤ 1 ∧ picks.Backs site)

/-- What a part of an expansion adds is wanted; what a project requires of others, if its version is
backed. -/
def Task.WantedOf (u : Universe) (problem : Problem) (picks : Picks) : Task → Prop
  | .expand site packages _ => ∀ q ∈ packages, picks.Needs u problem site.project.root q
  | .requireAll site manifest groups =>
    picks.Backs site → Task.Wanted u problem picks (.requireAll site manifest groups)
  | .require site r => picks.Backs site → Task.Wanted u problem picks (.require site r)

/-- The project that has a requirement is among those it goes back to. -/
theorem Picks.BacksOf.depender {site : Selected} {r : Requirement}
    (h : picks.BacksOf p r.culprits) (hs : p.selected? site.project.root = some site)
    (hd : r.depender = some site.index) : picks.Backs site :=
  h _ _ hs (mem_culprits.2 (.inr hd))

/-- A requirement that the project at hand has on another is in force, if that project is backed. -/
theorem Task.Fits.explains_require {site : Selected} {r : Requirement} {t : Trial}
    (hfits : Task.Fits u (.require site r) t)
    (hwanted : Task.WantedOf u problem picks (.require site r)) :
    ∀ r' ∈ (t.require r).pending,
      r' ∈ t.pending ∨ (picks.BacksOf t.chosen r'.culprits → picks.Meets u problem r') := by
  obtain ⟨target, terms, packages, rfl, -⟩ := hfits.external _ _ rfl
  intro r' hr'
  rcases Trial.mem_pending_require.1 hr' with hr' | rfl
  · exact .inl hr'
  · exact .inr fun hb => (hwanted (hb.depender hfits.selected rfl)).1

/-- What a project requires of itself goes back to it, and is in force where it is backed. -/
theorem Task.Fits.explains_requireInternal {site : Selected} {packages known : SortedSet String}
    {t : Trial} {tree : PackageTree} {f : Footprint}
    (hfits : Task.Fits u (.expand site packages known) t)
    (hp : u.packagesOf site.project site.version = .ok tree)
    (hf : tree.footprint? (problem.place site.project.root) packages known = .ok f)
    (hwanted : ∀ q ∈ packages, picks.Needs u problem site.project.root q) :
    ∀ r ∈ (t.requireInternal site (f.packages.diff known)).pending,
      r ∈ t.pending ∨ (picks.BacksOf t.chosen r.culprits → picks.Meets u problem r) := by
  intro r hr
  unfold Trial.requireInternal at hr
  split at hr
  · exact .inl hr
  · rename_i hempty
    rcases Trial.mem_pending_require.1 hr with hr | rfl
    · exact .inl hr
    · refine .inr fun hb => ?_
      have hsite := hb.depender hfits.selected rfl
      have hneeds : ∀ q ∈ f.packages.diff known, picks.Needs u problem site.project.root q := by
        intro q hq
        obtain ⟨hq, hk⟩ := SortedSet.mem_diff.1 hq
        exact ((hsite.footprint hp hwanted hf).1 q hq).resolve_left hk
      obtain ⟨q, hq⟩ := SortedSet.exists_mem_of_not_isEmpty hempty
      exact hsite.meets_internal t ⟨q, hneeds q hq⟩ hneeds

/-- A requirement that an expansion near a backed version adds is in force, if the decisions it goes
back to are backed. -/
theorem Adds.explains (hc : picks.Consistent u problem) {n : Nat} {task : Task} {t t' : Trial}
    (h : Adds u problem n task t t') (hfits : task.Fits u t) (hnear : task.Near picks n)
    (hwanted : task.WantedOf u problem picks) :
    ∀ r ∈ t'.pending, r ∈ t.pending ∨
      (picks.BacksOf t.chosen r.culprits → picks.Meets u problem r) := by
  induction h with
  | @walked n site packages known t tree manifest f groups t' hp hm hf hg h ih =>
    have hnear' : n = 0 ∨ (n ≤ 1 ∧ picks.Backs site) := by
      rcases hnear with hn | ⟨hn, hb⟩
      · exact .inl (by omega)
      · exact .inr ⟨by omega, hb⟩
    intro r hr
    rcases ih (hfits.walked hg) hnear' (fun hb => hg.wanted hb hp hm hwanted hf) r hr with hr | hr
    · exact hfits.explains_requireInternal hp hf hwanted r hr
    · rw [Trial.requireInternal_chosen] at hr
      exact .inr hr
  | done => exact fun r hr => .inl hr
  | @next n site manifest target packages rest t t1 t' h1 h2 ih1 ih2 =>
    have hchosen := (h1.brings hfits.first).1
    have hwanted1 : Task.WantedOf u problem picks
        (.require site (t.external site target (problem.termsFor manifest target) packages)) := by
      intro hb
      obtain ⟨hasks, hneeds⟩ := hwanted hb _ _ List.mem_cons_self
      exact ⟨.of_asks hc hasks rfl rfl hneeds, rfl⟩
    have hwanted2 : Task.WantedOf u problem picks (.requireAll site manifest rest) :=
      fun hb target paths hmem => hwanted hb target paths (List.mem_cons_of_mem _ hmem)
    intro r hr
    rcases ih2 (hfits.rest hchosen) hnear hwanted2 r hr with hr | hr
    · exact ih1 hfits.first hnear hwanted1 r hr
    · rw [hchosen] at hr
      exact .inr hr
  | waits => exact hfits.explains_require hwanted
  | known => exact hfits.explains_require hwanted
  | @fresh n site r t sel q t' hs hconf hq hn h ih =>
    have hroot := PartialSolution.selected?_root hs
    rcases hnear with rfl | ⟨hle, hb⟩
    -- without depth left, nothing can be expanded
    · cases h
    -- the requirement is in force, so what it pulls in is wanted, whatever its project
    -- is decided on
    · have hmeets := (hwanted hb).1
      intro r' hr'
      rcases ih (Task.Fits.of_selected? hs) (.inl hle) (hmeets.wanted_expand hroot).2 r' hr' with
        hr' | hr'
      · rcases Trial.mem_pending_require.1 hr' with hr' | rfl
        · exact .inl hr'
        · exact .inr fun _ => hmeets
      · exact .inr hr'

/-! ## One place for each project -/

/-- Where the problem itself fetches a project from. -/
def Problem.home (problem : Problem) (root : String) : String :=
  (⟨root, (problem.termsFor problem.manifest root).source⟩ : Project).location

/-- No version of a project wants another from elsewhere than the problem itself does. -/
def Universe.OneSource (u : Universe) (problem : Problem) : Prop :=
  ∀ project version manifest, u.manifestOf project version = .ok manifest → ∀ root,
    (⟨root, (problem.termsFor manifest root).source⟩ : Project).location = problem.home root

/-- If only overrides name sources, there is one place for each project. -/
theorem Universe.oneSource_of_overrides
    (hu : ∀ s ∈ u.published, ∀ terms ∈ s.constraints.values, terms.source = none)
    (hproblem : ∀ terms ∈ problem.manifest.constraints.values, terms.source = none) :
    u.OneSource problem := by
  have hnone : ∀ (constraints : SortedMap String Terms) root,
      (∀ terms ∈ constraints.values, terms.source = none) →
        ((constraints.get? root).getD ⟨none, .any⟩).source = none := by
    intro constraints root h
    cases hget : constraints.get? root with
    | none => rfl
    | some terms => exact h terms (List.mem_map.2 ⟨_, SortedMap.get?_eq_some_iff.1 hget, rfl⟩)
  intro project version manifest hm root
  obtain ⟨s, hs, rfl⟩ := manifestOf_eq_ok_iff.1 hm
  unfold Problem.home Problem.termsFor
  cases hoverride : problem.manifest.overrides.get? root with
  | some terms => rfl
  | none =>
    have hsnapshot := hnone s.constraints root (hu s (mem_published_of_snapshot hs))
    have hown := hnone problem.manifest.constraints root hproblem
    show (⟨root, ((s.constraints.get? root).getD ⟨none, .any⟩).source⟩ : Project).location =
      (⟨root, ((problem.manifest.constraints.get? root).getD ⟨none, .any⟩).source⟩ :
        Project).location
    rw [hsnapshot, hown]

/-- A project is fetched from where the problem fetches it. -/
def Project.AtHome (project : Project) (problem : Problem) : Prop :=
  project.location = problem.home project.root

/-- All requirements of a trial are on projects that are fetched from where the problem fetches
them. -/
def Trial.AtHome (t : Trial) (problem : Problem) : Prop :=
  ∀ r ∈ t.requirements, r.project.AtHome problem

theorem Trial.AtHome.require {t : Trial} {r : Requirement} (ht : t.AtHome problem)
    (hr : r.project.AtHome problem) : (t.require r).AtHome problem := by
  intro r' hr'
  rcases Trial.mem_requirements_require.1 hr' with hr' | rfl
  · exact ht r' hr'
  · exact hr

theorem Trial.AtHome.requireInternal {t : Trial} {site : Selected} {added : SortedSet String}
    (ht : t.AtHome problem) (hsite : site.project.AtHome problem) :
    (t.requireInternal site added).AtHome problem := by
  unfold Trial.requireInternal
  split
  · exact ht
  · exact ht.require hsite

/-- A part of an expansion adds requirements on projects that are fetched from where the
problem fetches them. -/
def Task.AtHome (problem : Problem) : Task → Prop
  | .expand .. => True
  | .requireAll _ manifest _ => ∀ root,
    (⟨root, (problem.termsFor manifest root).source⟩ : Project).AtHome problem
  | .require _ r => r.project.AtHome problem

/-- With one place for each project, all requirements that an expansion adds agree on it. -/
theorem Adds.atHome (hsource : u.OneSource problem) {n : Nat} {task : Task} {t t' : Trial}
    (h : Adds u problem n task t t') (hfits : task.Fits u t) (htask : task.AtHome problem)
    (hchosen : ∀ root sel, t.chosen.selected? root = some sel → sel.project.AtHome problem)
    (ht : t.AtHome problem) : t'.AtHome problem := by
  induction h with
  | @walked n site packages known t tree manifest f groups t' hp hm hf hg h ih =>
    exact ih (hfits.walked hg) (hsource _ _ _ hm)
      (by rw [Trial.requireInternal_chosen]; exact hchosen)
      (ht.requireInternal (hchosen _ _ hfits.selected))
  | done => exact ht
  | @next n site manifest target packages rest t t1 t' h1 h2 ih1 ih2 =>
    have hchosen1 := (h1.brings hfits.first).1
    exact ih2 (hfits.rest hchosen1) htask (hchosen1 ▸ hchosen)
      (ih1 hfits.first (htask target) hchosen ht)
  | waits => exact ht.require htask
  | known => exact ht.require htask
  | fresh hs hconf hq hn h ih =>
    exact ih (Task.Fits.of_selected? hs) trivial hchosen (ht.require htask)

/-- With one place for each project, no two requirements disagree about it. -/
theorem waitingFailure?_of_atHome {t : Trial} (ht : t.AtHome problem)
    {site : Selected} {r : Requirement} (hr : r.project.AtHome problem) :
    waitingFailure? problem t site r = none := by
  unfold waitingFailure?
  rw [Option.map_eq_none_iff, List.find?_eq_none]
  intro other hother
  obtain ⟨hmem, hroot⟩ := Trial.mem_requirementsOn.1 hother
  have hat : other.project.location = problem.home other.project.root := ht other hmem
  have hat' : r.project.location = problem.home r.project.root := hr
  simp [hat, hat', hroot]

/-! ## Failures are explained -/

theorem Picks.BacksOf.mono {culprits culprits' : SortedSet Nat} (h : picks.BacksOf p culprits')
    (hsub : ∀ i ∈ culprits, i ∈ culprits') : picks.BacksOf p culprits :=
  fun root sel hs hi => h root sel hs (hsub _ hi)

/-- An expansion that fails is of a version that no consistent assignment backs together with the
decisions to blame. -/
theorem Expands.not_blamed (hc : picks.Consistent u problem)
    (hsource : u.OneSource problem) {n : Nat} {task : Task} {t : Trial}
    {res : Except Stop (Except Failure Trial)} (h : Expands u problem n task t res)
    (hfits : task.Fits u t) (hsite : picks.Backs task.site) (hwanted : task.Wanted u problem picks)
    (htask : task.AtHome problem) (hchosen : ∀ root sel, t.chosen.selected? root = some sel →
      sel.project.AtHome problem)
    (ht : t.AtHome problem) {failure : Failure}
    (hres : res = .ok (.error failure)) : ¬ picks.BacksOf t.chosen failure.culprits := by
  -- a failure blames the project at hand and whatever did not agree; an assignment that backs these
  -- all would not have failed
  induction h generalizing failure with
  | exhausted => simp at hres
  | unanswered => simp at hres
  | unowned => simp at hres
  | done => simp at hres
  | stops => simp at hres
  | waits => simp at hres
  | known => simp at hres
  | fresh => simp at hres
  | freshStops => simp at hres
  | missing hp hf => exact absurd hf (hsite.not_missing hc hp hwanted.2)
  | @walked n site packages known t tree manifest f groups res hp hm hf hg h ih =>
    have hnot := ih (hfits.walked hg) hsite (hg.wanted hsite hp hm hwanted.2 hf) (hsource _ _ _ hm)
      (by rw [Trial.requireInternal_chosen]; exact hchosen)
      (ht.requireInternal (hchosen _ _ hfits.selected)) hres
    rwa [Trial.requireInternal_chosen] at hnot
  | @fails n site manifest target packages rest t failure' h1 ih1 =>
    obtain rfl : failure' = failure := by simpa using hres
    obtain ⟨hasks, hneeds⟩ := hwanted _ _ List.mem_cons_self
    exact ih1 hfits.first hsite ⟨.of_asks hc hasks rfl rfl hneeds, rfl⟩
      (htask target) hchosen ht rfl
  | @next n site manifest target packages rest t t1 res h1 h2 ih1 ih2 =>
    have hadds := h1.adds rfl
    have hchosen1 := (hadds.brings hfits.first).1
    have ht1 := hadds.atHome hsource hfits.first (htask target) hchosen ht
    have hnot := ih2 (hfits.rest hchosen1) hsite
      (fun target paths hmem => hwanted target paths (List.mem_cons_of_mem _ hmem)) htask
      (hchosen1 ▸ hchosen) ht1 hres
    rwa [hchosen1] at hnot
  | disagrees hs hw =>
    rw [waitingFailure?_of_atHome ht htask] at hw
    simp at hw
  | @conflicts n site r t sel c hs hconf =>
    obtain rfl : _ = failure := by simpa using hres
    intro hb
    have hsel := hb _ _ hs (SortedSet.mem_insert.2 (.inl rfl))
    have hnone : selectedConflict? site r sel = none :=
      hsel.no_conflict hc hwanted.1 hwanted.2 (PartialSolution.selected?_root hs)
    simp [hnone] at hconf
  | @freshFails n site r t sel q failure' hs hconf hq hn h ih =>
    obtain rfl : _ = failure := by simpa using hres
    intro hb
    have hsel := hb _ _ hs (SortedSet.mem_union.2 (.inr (SortedSet.mem_insert.2 (.inl rfl))))
    exact ih (Task.Fits.of_selected? hs) hsel
      (hwanted.1.wanted_expand (PartialSolution.selected?_root hs)) trivial hchosen
      (ht.require htask) rfl (hb.mono fun i hi => SortedSet.mem_union.2 (.inl hi))

/-! ## Decisions that an assignment agrees with -/

/-- An assignment agrees with a decision: it backs the version, and needs the packages that were
required of the project when it was decided on. -/
structure Picks.Agrees (u : Universe) (problem : Problem) (picks : Picks) (p : PartialSolution)
    (i : Nat) : Prop where
  backs : ∀ d, p.decision? i = some d → picks.Backs (PartialSolution.selection i d)
  needs : ∀ d, p.decision? i = some d → ∀ q ∈ packagesOf ((p.take i).requirementsOn d.root),
    picks.Needs u problem d.root q

namespace Picks.Agrees

theorem of_take {i n : Nat} (hi : i < n) (h : picks.Agrees u problem (p.take n) i) :
    picks.Agrees u problem p i := by
  refine ⟨fun d hd => h.backs d ?_, fun d hd => ?_⟩
  · rwa [PartialSolution.decision?_take hi]
  · have hneeds := h.needs d (by rwa [PartialSolution.decision?_take hi])
    rwa [PartialSolution.take_take (Nat.le_of_lt hi)] at hneeds

theorem take {i n : Nat} (hi : i < n) (h : picks.Agrees u problem p i) :
    picks.Agrees u problem (p.take n) i := by
  refine ⟨fun d hd => h.backs d ?_, fun d hd => ?_⟩
  · rwa [PartialSolution.decision?_take hi] at hd
  · rw [PartialSolution.take_take (Nat.le_of_lt hi)]
    exact h.needs d (by rwa [PartialSolution.decision?_take hi] at hd)

theorem of_push {d : Decision} {i : Nat} (hi : i < p.size)
    (h : picks.Agrees u problem (p.push d) i) : picks.Agrees u problem p i := by
  have htake := h.take hi
  rw [PartialSolution.take_push (Nat.le_refl _), PartialSolution.take_size] at htake
  exact htake

/-- Nothing is asked of an assignment by a decision that was not made. -/
theorem of_size_le {i : Nat} (hi : p.size ≤ i) : picks.Agrees u problem p i := by
  have hnone : p.decision? i = none := List.getElem?_eq_none hi
  exact ⟨by simp [hnone], by simp [hnone]⟩

theorem backsOf {culprits : SortedSet Nat} (h : ∀ i ∈ culprits, picks.Agrees u problem p i) :
    picks.BacksOf p culprits := by
  intro root sel hs hi
  obtain ⟨d, hd, -, heq⟩ := PartialSolution.selected?_eq_some hs
  rw [heq]
  exact (h _ hi).backs d hd

end Picks.Agrees

/-! ## Partial solutions whose requirements are explained -/

namespace PartialSolution

/-- Every requirement is in force under an assignment that agrees with the decisions that
it goes back to. -/
def Explained (u : Universe) (problem : Problem) (picks : Picks) (p : PartialSolution) : Prop :=
  ∀ r ∈ p.requirements, (∀ i ∈ r.culprits, picks.Agrees u problem p i) → picks.Meets u problem r

/-- Every decision was accepted by an attempt that brings in packages of other projects that were
decided on, but goes no further from there. -/
def Direct (u : Universe) (problem : Problem) (options : SolveOptions)
    (p : PartialSolution) : Prop :=
  ∀ i d, p.decision? i = some d →
    ((u.solver problem options ⟨0, 2⟩).attempt (p.take i) d.frame d.version).outcome =
      .ok (.ok d.added)

instance : Decidable (p.Direct u problem options) :=
  decidable_of_iff (∀ i ∈ List.range p.size, ∀ d ∈ p.decision? i,
    ((u.solver problem options ⟨0, 2⟩).attempt (p.take i) d.frame d.version).outcome =
      .ok (.ok d.added))
    ⟨fun h i d hd => h i (List.mem_range.2 (decision?_lt hd)) d hd, fun h i _ d hd => h i d hd⟩

theorem Direct.of_push {d : Decision} (h : (p.push d).Direct u problem options) :
    p.Direct u problem options := by
  intro i e he
  have hlt := decision?_lt he
  have h' := h i e (by rwa [decision?_push_of_lt hlt])
  rwa [take_push (Nat.le_of_lt hlt)] at h'

/-- Where packages were brought in of no more than one other project at a time, all requirements are
explained. -/
theorem explained_of_direct (h : (u.solver problem options limits).Reached p)
    (hdirect : p.Direct u problem options) (hc : picks.Consistent u problem) :
    p.Explained u problem picks := by
  -- along the decisions: what was explained stays so, and what a decision adds was
  -- brought in near it
  induction h with
  | base hbase =>
    intro r hr _
    exact Solver.meets_base hc hbase r (by simpa [requirements] using hr)
  | @push p f v added hp ho ha ih =>
    have hsound := sound_of_reached hp
    have hs : p.selected? f.project.root = none := ho.selected?
    intro r hr hagrees
    rw [requirements_push] at hr
    rcases List.mem_append.1 hr with hr | hr
    · exact ih hdirect.of_push r hr fun i hi => (hagrees i hi).of_push (hsound.culprits r hr i hi)
    · have hnear := hdirect p.size _ decision?_push_size
      rw [take_push (Nat.le_refl _), take_size] at hnear
      obtain ⟨t, hadds, hpending⟩ := Solver.attempt_accepts hnear
      have hfits : Task.Fits u
          (.expand (p.next f v) (packagesOf (p.requirementsOn f.project.root)) .empty)
          (p.trial f v) := Solver.attempt_fits hs
      have hmem : r ∈ t.pending := by rwa [hpending]
      have howner : r.owner = some p.size := by
        rcases (hadds.brings hfits).2.2 r hmem with hr | hr
        · simp [trial] at hr
        · rw [hr.owner, trial_owner]
      have hown := hagrees p.size (mem_culprits.2 (.inl howner))
      have hbacks : picks.Backs (p.next f v) := hown.backs _ decision?_push_size
      have hneeds := hown.needs _ decision?_push_size
      rw [take_push (Nat.le_refl _), take_size] at hneeds
      rcases hadds.explains hc hfits (.inr ⟨Nat.le_refl _, hbacks⟩) hneeds r hmem with hr | hr
      · simp [trial] at hr
      · refine hr fun root sel hsel hi => ?_
        refine Picks.Agrees.backsOf hagrees root sel ?_ hi
        rw [← hsel]
        exact selected?_push_added

/-- What was decided on is fetched from where it is required from. -/
theorem Sound.atHome_of_mem (hp : p.Sound u problem)
    (h : ∀ r ∈ p.requirements, r.project.AtHome problem) {d : Decision} (hd : d ∈ p.decisions) :
    d.frame.project.AtHome problem := by
  obtain ⟨r, hr, -, hproject⟩ := hp.required d hd
  have hhome := h r hr
  rwa [hproject] at hhome

/-- What is selected is fetched from where it is required from, and so is the project to decide
on. -/
theorem Sound.selected?_atHome (hp : p.Sound u problem) {f : Frame} {v : Version}
    {left : List Version} (ho : (u.solver problem options limits).Opens p f.project left)
    (h : ∀ r ∈ p.requirements, r.project.AtHome problem) {root : String} {sel : Selected}
    (hs : (p.trial f v).chosen.selected? root = some sel) : sel.project.AtHome problem := by
  obtain ⟨r, hr, -, hproject⟩ := hp.required_of_push ho hs
  have hhome := h r hr
  rwa [hproject] at hhome

/-- With one place for each project, a search fetches projects from there only. -/
theorem atHome_of_reached (hsource : u.OneSource problem)
    (h : (u.solver problem options limits).Reached p) :
    ∀ r ∈ p.requirements, r.project.AtHome problem := by
  induction h with
  | base hbase =>
    intro r hr
    obtain ⟨-, -, -, hproject, -⟩ := (Solver.baseRequirements_ok hbase).2 r
      (by simpa [requirements] using hr)
    rw [hproject]
    rfl
  | @push p f v added hp ho ha ih =>
    have hsound := sound_of_reached hp
    obtain ⟨t, hadds, rfl⟩ := Solver.attempt_accepts ha
    have hfits : Task.Fits u
        (.expand (p.next f v) (packagesOf (p.requirementsOn f.project.root)) .empty)
        (p.trial f v) := Solver.attempt_fits ho.selected?
    have htrial :=
      hadds.atHome hsource hfits trivial (fun root sel => hsound.selected?_atHome ho ih)
      fun r hr => ih r (trial_requirements ▸ hr)
    intro r hr
    rw [requirements_push] at hr
    rcases List.mem_append.1 hr with hr | hr
    · exact ih r hr
    · exact htrial r (List.mem_append_right _ hr)

end PartialSolution

end Depsolve
