import Depsolve.Proofs.Solve.Blame
import Depsolve.Proofs.Solve.Memo
import Depsolve.Proofs.Solve.Termination

/-!
# When searches are complete

`Solver.Spares` says that a search has not passed over what an assignment picks: the version that is
picked for a project is still among the candidates, as long as the assignment agrees with the
decisions to blame for those that are gone. Every step keeps that (`Solver.Spares.step`), so a
search that runs out of decisions to blame leaves no consistent assignment.

That holds only where the decisions to blame explain the failures: with one place for each project
(`Universe.OneSource`), since remembered failures do not tell places apart; with requirements that
are brought in through at most one other project (`PartialSolution.Direct`); and for assignments
whose versions are among the candidates when these are looked up (`Solver.Finds`).
-/

namespace Depsolve

variable {u : Universe} {problem : Problem} {options : SolveOptions} {limits : Limits}
  {picks : Picks} {p : PartialSolution}

/-! ## Remembered failures -/

/-- An assignment picks a version that another stands for, from where the problem fetches the
project. -/
def Picks.Chooses (problem : Problem) (picks : Picks) (root : String) (v : Version) : Prop :=
  ∃ project version, picks root = some (project, version) ∧ project.root = root ∧
    project.AtHome problem ∧ v.StandsFor version

theorem Picks.Chooses.backs {sel : Selected}
    (h : picks.Chooses problem sel.project.root sel.version) (hhome : sel.project.AtHome problem) :
    picks.Backs sel := by
  obtain ⟨project, version, hpick, hroot, hat, hst⟩ := h
  refine ⟨project, version, hpick, hroot, ?_, hst⟩
  have hat' : project.location = problem.home project.root := hat
  have hhome' : sel.project.location = problem.home sel.project.root := hhome
  rw [hat', hhome', hroot]

theorem Picks.Backs.chooses {sel : Selected} (h : picks.Backs sel)
    (hhome : sel.project.AtHome problem) : picks.Chooses problem sel.project.root sel.version := by
  obtain ⟨project, version, hpick, hroot, hloc, hst⟩ := h
  refine ⟨project, version, hpick, hroot, ?_, hst⟩
  have hhome' : sel.project.location = problem.home sel.project.root := hhome
  show project.location = problem.home project.root
  rw [hloc, hhome', hroot]

theorem Picks.Chooses.of_same {root : String} {v w : Version} (h : picks.Chooses problem root w)
    (hsame : v.same w = true) : picks.Chooses problem root v := by
  obtain ⟨project, version, hpick, hroot, hat, hst⟩ := h
  obtain ⟨r, hr, -⟩ := hst.revision
  exact ⟨project, version, hpick, hroot, hat, (Version.StandsFor.of_same hsame hr).trans hst⟩

/-- No consistent assignment picks what a remembered failure is about. -/
def Nogood.Sound (u : Universe) (problem : Problem) (picks : Picks) (n : Nogood) : Prop :=
  picks.Chooses problem n.project n.version → (∃ q, picks.Needs u problem n.project q) →
    (∀ q ∈ n.packages, picks.Needs u problem n.project q) →
      ¬ ∀ x ∈ n.assignment.entries, picks.Chooses problem x.1 x.2

/-- A version fails only if it is not backed together with the decisions to blame. -/
theorem Solver.attempt_not_blamed (hc : picks.Consistent u problem) (hsource : u.OneSource problem)
    (hreached : (u.solver problem options limits).Reached p) {f : Frame} {v : Version}
    {left : List Version} (ho : (u.solver problem options limits).Opens p f.project left)
    {failure : Failure}
    (ha : ((u.solver problem options limits).attempt p f v).outcome = .ok (.error failure))
    (hb : picks.Backs (p.next f v)) (hneeded : ∃ q, picks.Needs u problem f.project.root q)
    (hneeds : ∀ q ∈ packagesOf (p.requirementsOn f.project.root),
      picks.Needs u problem f.project.root q) : ¬ picks.BacksOf p failure.culprits := by
  intro hculprits
  have hsound := PartialSolution.sound_of_reached hreached
  have hhome := PartialSolution.atHome_of_reached hsource hreached
  have hnone := ho.selected?
  refine (attempt_fails ha).not_blamed hc hsource (attempt_fits hnone) hb ⟨hneeded, hneeds⟩ trivial
    (fun root sel => hsound.selected?_atHome ho hhome)
    (fun r hr => hhome r (PartialSolution.trial_requirements ▸ hr)) rfl fun root sel hs hi => ?_
  -- the version on trial is backed itself, and the others by the blame
  by_cases hroot : f.project.root = root
  · subst hroot
    rw [PartialSolution.trial_selected?_next hnone] at hs
    obtain rfl := Option.some.inj hs
    exact hb
  · refine hculprits root sel ?_ hi
    rw [← hs, PartialSolution.trial]
    exact (PartialSolution.selected?_push_of_ne (d := ⟨f, v, []⟩) hroot).symm

/-- What is selected by some decisions has the version of their assignment. -/
theorem PartialSolution.Sound.mem_assignment (hp : p.Sound u problem) {root : String}
    {sel : Selected} (hs : p.selected? root = some sel) {decisions : SortedSet Nat}
    (hi : sel.index ∈ decisions) : (root, sel.version) ∈ (p.assignment decisions).entries := by
  obtain ⟨d, hd, rfl, heq⟩ := selected?_eq_some hs
  have hmem : (d.root, d.version) ∈
      (decisions.toList.filterMap p.decision?).map fun d => (d.root, d.version) :=
    List.mem_map.2 ⟨d, List.mem_filterMap.2 ⟨_, hi, hd⟩, rfl⟩
  obtain ⟨w, hw⟩ := SortedMap.exists_mem_ofList hmem
  obtain ⟨e, he, hentry⟩ := List.mem_map.1 (SortedMap.mem_of_mem_ofList hw)
  obtain ⟨i, -, hdecision⟩ := List.mem_filterMap.1 he
  obtain ⟨hroot, rfl⟩ := Prod.mk.inj hentry
  obtain rfl : e = d :=
    List.inj_on_of_nodup_map hp.distinct (mem_of_decision? hdecision) (mem_of_decision? hd) hroot
  rw [heq]
  exact hw

theorem Picks.Chooses.backs_next (hsource : u.OneSource problem)
    (hreached : (u.solver problem options limits).Reached p) {f : Frame} {v : Version}
    {left : List Version} (ho : (u.solver problem options limits).Opens p f.project left)
    (h : picks.Chooses problem f.project.root v) : picks.Backs (p.next f v) := by
  have hchooses : picks.Chooses problem (p.next f v).project.root (p.next f v).version := h
  refine hchooses.backs ?_
  exact (PartialSolution.sound_of_reached hreached).selected?_atHome ho
    (PartialSolution.atHome_of_reached hsource hreached)
    (PartialSolution.trial_selected?_next (f := f) (v := v) ho.selected?)

/-- The failure that is remembered when a version has failed is of one that no consistent assignment
picks. -/
theorem Search.nogood_sound (hc : picks.Consistent u problem) (hsource : u.OneSource problem)
    {search : Search} (hreached : (u.solver problem options limits).Reached search.chosen)
    {f : Frame} {v : Version} {left : List Version}
    (ho : (u.solver problem options limits).Opens search.chosen f.project left) {failure : Failure}
    (ha : ((u.solver problem options limits).attempt search.chosen f v).outcome =
      .ok (.error failure)) :
    Nogood.Sound u problem picks ⟨f.project.root, v,
      packagesOf (search.chosen.requirementsOn f.project.root),
      search.chosen.assignment (failure.culprits.filter (· < search.chosen.size))⟩ := by
  intro hchooses hneeded hneeds hassignment
  have hsound := PartialSolution.sound_of_reached hreached
  have hhome := PartialSolution.atHome_of_reached hsource hreached
  have hb : picks.Backs (search.chosen.next f v) := hchooses.backs_next hsource hreached ho
  refine Solver.attempt_not_blamed hc hsource hreached ho ha hb hneeded hneeds fun root sel hs hi =>
    ?_
  have hi' : sel.index ∈ failure.culprits.filter (· < search.chosen.size) :=
    SortedSet.mem_filter.2 ⟨hi, decide_eq_true (PartialSolution.selected?_lt hs)⟩
  have hsel := hassignment _ (hsound.mem_assignment hs hi')
  rw [← PartialSolution.selected?_root hs] at hsel
  refine hsel.backs ?_
  obtain ⟨d, hd, -, heq⟩ := PartialSolution.selected?_eq_some hs
  rw [heq]
  exact hsound.atHome_of_mem hhome (PartialSolution.mem_of_decision? hd)

/-- A version that is passed over as known to fail is picked by no consistent assignment that agrees
with the decisions to blame. -/
theorem Search.not_chooses_of_consult {search : Search} (hsource : u.OneSource problem)
    (hreached : (u.solver problem options limits).Reached search.chosen)
    (hmemo : ∀ n ∈ search.memo.nogoods, n.Sound u problem picks) {f : Frame} {v : Version}
    {left : List Version}
    (ho : (u.solver problem options limits).Opens search.chosen f.project left)
    {roots : List String} {memo : FailureMemo} (hconsult : search.consult f v = (some roots, memo))
    (hagrees : ∀ i ∈ SortedSet.ofList (roots.filterMap search.chosen.index?),
      picks.Agrees u problem search.chosen i)
    (hmeets : ∀ r ∈ search.chosen.requirementsOn f.project.root, picks.Meets u problem r) :
    ¬ picks.Chooses problem f.project.root v := by
  intro hchooses
  have hsound := PartialSolution.sound_of_reached hreached
  have hhome := PartialSolution.atHome_of_reached hsource hreached
  -- the failure that was found is sound, and all that it goes with is picked
  obtain ⟨n, hn, rfl, hproject, hversion, hpackages, hholds⟩ := FailureMemo.consult_eq_some hconsult
  obtain ⟨hneeded, hneeds⟩ := ho.wanted hsound hmeets
  refine hmemo n hn ?_ ?_ ?_ fun x hx => ?_
  · rw [hproject]
    exact hchooses.of_same hversion
  · rw [hproject]
    exact hneeded
  · rw [hproject, hpackages]
    exact hneeds
  · obtain ⟨w, hw, hsame⟩ := hholds x hx
    rw [PartialSolution.version?_eq, Option.map_eq_some_iff] at hw
    obtain ⟨sel, hs, rfl⟩ := hw
    obtain ⟨d, hd, -, heq⟩ := PartialSolution.selected?_eq_some hs
    have hindex : sel.index ∈ SortedSet.ofList (n.assignment.keys.filterMap search.chosen.index?) :=
      SortedSet.mem_ofList.2 (List.mem_filterMap.2
        ⟨x.1, List.mem_map.2 ⟨x, hx, rfl⟩, PartialSolution.index?_of_selected? hs⟩)
    have hback := (hagrees _ hindex).backs d hd
    have hx' := hback.chooses (hsound.atHome_of_mem hhome (PartialSolution.mem_of_decision? hd))
    rw [← heq, PartialSolution.selected?_root hs] at hx'
    exact hx'.of_same (Version.same_comm _ _ ▸ hsame)

/-! ## Frames that cover what is picked -/

/-- What an assignment picks for the project is among some candidates, as long as it agrees with the
decisions because of which others failed, and meets the requirements on the project. -/
def Frame.Covers (u : Universe) (problem : Problem) (picks : Picks)
    (p : PartialSolution) (f : Frame) (candidates : List Version) : Prop :=
  (∀ i ∈ f.conflicts, picks.Agrees u problem p i) →
    (∀ r ∈ p.requirementsOn f.project.root, picks.Meets u problem r) →
      ∃ w ∈ candidates, picks.Chooses problem f.project.root w

/-- A search has not passed over what an assignment picks. -/
structure Search.Spares (u : Universe) (problem : Problem) (picks : Picks)
    (search : Search) : Prop where
  /-- It is among the candidates that are left for a project that was decided on. -/
  decided : ∀ i d, search.chosen.decision? i = some d →
    d.frame.Covers u problem picks (search.chosen.take i) (d.version :: d.frame.candidates)
  /-- It is among the candidates that are left for the project at hand. -/
  trying : ∀ f, search.phase = .trying f → f.Covers u problem picks search.chosen f.candidates
  /-- It is not remembered as a failure. -/
  memo : ∀ n ∈ search.memo.nogoods, n.Sound u problem picks

theorem Search.Spares.start {base : List Requirement} :
    (Search.start base).Spares u problem picks :=
  ⟨by simp [Search.start, PartialSolution.decision?], by simp [Search.start],
    by simp [Search.start, FailureMemo.empty]⟩

/-- A jump back from where the assignment does not agree with all decisions to blame does not pass
over what it picks. -/
theorem Search.Spares.jump {search next : Search} (h : search.Spares u problem picks)
    (hsource : u.OneSource problem)
    (hreached : (u.solver problem options limits).Reached search.chosen) {root : String}
    {culprits : SortedSet Nat} {conflicts : List Conflict}
    (hnot : ¬ ∀ i ∈ culprits, picks.Agrees u problem search.chosen i)
    (hj : search.backjump root culprits conflicts = .ok next) : next.Spares u problem picks := by
  have hsound := PartialSolution.sound_of_reached hreached
  have hhome := PartialSolution.atHome_of_reached hsource hreached
  obtain ⟨i, d, hd, hi, hmax, hchosen, hphase, hmemo⟩ := backjump_ok hj
  refine ⟨fun j e he => ?_, fun f hf => ?_, by rw [hmemo]; exact h.memo⟩
  · rw [hchosen] at he ⊢
    have hj : j < i :=
      Nat.lt_of_lt_of_le (PartialSolution.decision?_lt he) PartialSolution.size_take_le
    rw [PartialSolution.decision?_take hj] at he
    rw [PartialSolution.take_take (Nat.le_of_lt hj)]
    exact h.decided j e he
  · obtain rfl : _ = f := by simpa [hphase] using hf
    intro hagrees hmeets
    rw [hchosen] at hagrees hmeets
    obtain ⟨w, hw, hchooses⟩ := h.decided i d hd
      (fun k hk => hagrees k (SortedSet.mem_union.2 (.inl hk))) hmeets
    rcases List.mem_cons.1 hw with rfl | hw
    -- the decision to go back to is picked, so with the earlier ones the assignment agrees with
    -- all to blame
    · refine absurd (fun k hk => ?_) hnot
      by_cases hk' : k < search.chosen.size
      · rcases Nat.lt_or_eq_of_le (hmax k hk hk') with hlt | rfl
        · refine Picks.Agrees.of_take hlt (hagrees k (SortedSet.mem_union.2 (.inr ?_)))
          exact SortedSet.mem_filter.2 ⟨SortedSet.mem_filter.2 ⟨hk, decide_eq_true hk'⟩,
            decide_eq_true hlt⟩
        · have hat := hsound.atHome_of_mem hhome (PartialSolution.mem_of_decision? hd)
          refine ⟨fun e he => ?_, fun e he q hq => ?_⟩
          · obtain rfl : d = e := by simpa [hd] using he
            have hchooses' : picks.Chooses problem (PartialSolution.selection k d).project.root
              (PartialSolution.selection k d).version := hchooses
            exact hchooses'.backs hat
          · obtain rfl : d = e := by simpa [hd] using he
            obtain ⟨r, hr, hq⟩ := mem_packagesOf.1 hq
            have hneeds := (hmeets r hr).needs q hq
            rwa [(PartialSolution.mem_requirementsOn.1 hr).2] at hneeds
      · exact .of_size_le (Nat.not_lt.1 hk')
    · exact ⟨w, hw, hchooses⟩

/-! ## Steps -/

/-- Whether a check succeeds for all states that a search goes through from one on, if these are
fewer than so many. -/
def Solver.checksAll (s : Solver Unit) (check : Search → Bool) : Nat → Search → Bool
  | 0, _ => false
  | n + 1, search => check search &&
    match (s.step search).outcome with
    | .ok (.ongoing next) => s.checksAll check n next
    | _ => true

/-- Whether a check succeeds for all states that a search goes through, if these are
fewer than so many. -/
def Solver.checksRun (s : Solver Unit) (check : Search → Bool) (n : Nat) : Bool :=
  match s.baseRequirements.outcome with
  | .ok base => s.checksAll check n (.start base)
  | .error _ => true

theorem Solver.Visits.of_checksRun {s : Solver Unit} {check : Search → Bool} {n : Nat}
    (hcheck : s.checksRun check n = true) {search : Search} (h : s.Visits search) :
    check search = true := by
  -- the check goes on from wherever the search gets
  have hfrom : ∃ m, s.checksAll check m search = true := by
    induction h with
    | start hbase =>
      rw [checksRun, hbase] at hcheck
      exact ⟨n, hcheck⟩
    | @step search next _ hstep ih =>
      obtain ⟨m, hm⟩ := ih
      cases m with
      | zero => simp [checksAll] at hm
      | succ m =>
        rw [checksAll, hstep, Bool.and_eq_true] at hm
        exact ⟨m, hm.2⟩
  obtain ⟨m, hm⟩ := hfrom
  cases m with
  | zero => simp [checksAll] at hm
  | succ m =>
    rw [checksAll, Bool.and_eq_true] at hm
    exact hm.1

/-- Wherever a search looks up candidates, what an assignment picks is among them, if it meets the
requirements. -/
def Solver.Finds (u : Universe) (s : Solver Unit) (picks : Picks) : Prop :=
  ∀ search, s.Visits search → ∀ project requirements candidates,
    (project, requirements) ∈ search.chosen.waiting →
      (s.candidates project requirements).outcome = .ok candidates →
        (∀ r ∈ requirements, picks.Meets u s.problem r) →
          ∃ w ∈ candidates, picks.Chooses s.problem project.root w

section Step

variable {search : Search}

/-- An assignment does not agree with all decisions to blame when no candidate is left. -/
theorem Search.Spares.not_agrees_spent (h : search.Spares u problem picks)
    (hg : (u.solver problem options limits).Grounded search)
    (hexplained : search.chosen.Explained u problem picks) {f : Frame}
    (hphase : search.phase = .trying f) (hcand : f.candidates = []) :
    ¬ ∀ i ∈ f.conflicts.union (culpritsOf ((search.chosen.requirementsOn f.project.root).filter
      fun r => ! r.isInternal)), picks.Agrees u problem search.chosen i := by
  intro hagrees
  have hsound := PartialSolution.sound_of_reached hg.reached
  obtain ⟨w, hw, -⟩ := h.trying f hphase (fun i hi => hagrees i (SortedSet.mem_union.2 (.inl hi)))
    fun r hr => by
      obtain ⟨hmem, hroot⟩ := PartialSolution.mem_requirementsOn.1 hr
      -- a project has requirements on itself only once it was decided on
      have hi : r.isInternal = false := by
        cases hi : r.isInternal with
        | false => rfl
        | true =>
          obtain ⟨-, sel, hs⟩ := hsound.internal r hmem hi
          rw [hroot, (hg.opens f hphase).selected?] at hs
          simp at hs
      refine hexplained r hmem fun i hculprit => hagrees i (SortedSet.mem_union.2 (.inr ?_))
      exact mem_culpritsOf.2 ⟨r, List.mem_filter.2 ⟨hr, by simp [hi]⟩, hculprit⟩
  rw [hcand] at hw
  simp at hw

/-- An assignment does not agree with all decisions to blame when a project has no candidate. -/
theorem Solver.Finds.not_agrees_stuck
    (hfinds : Solver.Finds u (u.solver problem options limits) picks)
    (hvisits : (u.solver problem options limits).Visits search)
    (hexplained : search.chosen.Explained u problem picks) {root : String}
    {requirements : List Requirement}
    (hc : ((u.solver problem options limits).choose search.chosen).outcome =
      .ok (.stuck root requirements)) :
    ¬ ∀ i ∈ culpritsOf requirements, picks.Agrees u problem search.chosen i := by
  intro hagrees
  obtain ⟨project, -, hmem, hcand⟩ := chooseFrom_fits hc
  obtain ⟨-, rfl, -⟩ := PartialSolution.of_mem_waiting hmem
  obtain ⟨w, hw, -⟩ := hfinds search hvisits project _ _ hmem hcand fun r hr =>
    hexplained r (PartialSolution.mem_requirementsOn.1 hr).1 fun i hi =>
      hagrees i (mem_culpritsOf.2 ⟨r, hr, hi⟩)
  simp at hw

/-- A candidate that an assignment does not pick, if it agrees with some more decisions to blame,
can be given up. -/
theorem Frame.Covers.blame {f : Frame} {v : Version} {left : List Version}
    {culprits : SortedSet Nat} {failures : List Conflict}
    (h : f.Covers u problem picks p (v :: left))
    (hnot : (∀ i ∈ culprits, picks.Agrees u problem p i) →
      (∀ r ∈ p.requirementsOn f.project.root, picks.Meets u problem r) →
        ¬ picks.Chooses problem f.project.root v) :
    ((f.leaving left).blame culprits failures).Covers u problem picks p left := by
  intro hagrees hmeets
  obtain ⟨w, hw, hchooses⟩ := h (fun i hi => hagrees i (SortedSet.mem_union.2 (.inl hi))) hmeets
  rcases List.mem_cons.1 hw with rfl | hw
  · exact absurd hchooses (hnot (fun i hi => hagrees i (SortedSet.mem_union.2 (.inr hi))) hmeets)
  · exact ⟨w, hw, hchooses⟩

theorem Search.Spares.memo_consult (h : search.Spares u problem picks) {f : Frame} {v : Version}
    {roots : Option (List String)} {memo : FailureMemo}
    (hconsult : search.consult f v = (roots, memo)) :
    ∀ n ∈ memo.nogoods, n.Sound u problem picks := by
  rw [FailureMemo.nogoods_consult hconsult]
  exact h.memo

namespace Search.Spares

variable {next : Search}

theorem select (h : search.Spares u problem picks)
    (hfinds : Solver.Finds u (u.solver problem options limits) picks)
    (hvisits : (u.solver problem options limits).Visits search) {project : Project}
    {candidates : List Version} (hchoose : ((u.solver problem options limits).choose
      search.chosen).outcome = .ok (.project project candidates))
    (hchosen : next.chosen = search.chosen)
    (hphase : next.phase = .trying (.start project candidates)) (hmemo : next.memo = search.memo) :
    next.Spares u problem picks := by
  refine ⟨by rw [hchosen]; exact h.decided, fun f hf => ?_, by rw [hmemo]; exact h.memo⟩
  obtain rfl : Frame.start project candidates = f := by simpa [hphase] using hf
  rw [hchosen]
  rcases Solver.chooseFrom_fits hchoose with hbest | ⟨-, requirements, hmem, hcand⟩
  · simp at hbest
  · obtain ⟨-, rfl, -⟩ := PartialSolution.of_mem_waiting hmem
    exact fun _ hmeets => hfinds search hvisits project _ _ hmem hcand hmeets

theorem accept (h : search.Spares u problem picks) {f : Frame} {v : Version} {left : List Version}
    {added : List Requirement} (hphase : search.phase = .trying f)
    (hcand : f.candidates = v :: left)
    (hchosen : next.chosen = search.chosen.push ⟨f.leaving left, v, added⟩)
    (hnext : next.phase = .deciding) (hmemo : ∀ n ∈ next.memo.nogoods, n.Sound u problem picks) :
    next.Spares u problem picks := by
  refine ⟨fun i d hd => ?_, fun f' hf => by simp [hnext] at hf, hmemo⟩
  have hcovers := h.trying f hphase
  rw [hcand] at hcovers
  rw [hchosen] at hd ⊢
  rcases PartialSolution.decision?_push_eq hd with ⟨hi, hd⟩ | ⟨rfl, rfl⟩
  · rw [PartialSolution.take_push (Nat.le_of_lt hi)]
    exact h.decided i d hd
  · rw [PartialSolution.take_push (Nat.le_refl _), PartialSolution.take_size]
    exact hcovers

/-- A candidate that is not picked under more decisions to blame can be given up. -/
theorem drop (h : search.Spares u problem picks) {f : Frame} {v : Version} {left : List Version}
    {culprits : SortedSet Nat} {failures : List Conflict} (hphase : search.phase = .trying f)
    (hcand : f.candidates = v :: left) (hchosen : next.chosen = search.chosen)
    (hnext : next.phase = .trying ((f.leaving left).blame culprits failures))
    (hmemo : ∀ n ∈ next.memo.nogoods, n.Sound u problem picks)
    (hnot : (∀ i ∈ culprits, picks.Agrees u problem search.chosen i) →
      (∀ r ∈ search.chosen.requirementsOn f.project.root, picks.Meets u problem r) →
        ¬ picks.Chooses problem f.project.root v) : next.Spares u problem picks := by
  refine ⟨by rw [hchosen]; exact h.decided, fun f' hf => ?_, hmemo⟩
  obtain rfl : _ = f' := by simpa [hnext] using hf
  have hcovers := h.trying f hphase
  rw [hcand] at hcovers
  rw [hchosen]
  exact hcovers.blame hnot

/-- A candidate that has failed is given up, and the failure remembered. -/
theorem reject (h : search.Spares u problem picks) (hc : picks.Consistent u problem)
    (hsource : u.OneSource problem) (hg : (u.solver problem options limits).Grounded search)
    {f : Frame} {v : Version} {left : List Version} {memo : FailureMemo} {failure : Failure}
    (hphase : search.phase = .trying f) (hcand : f.candidates = v :: left)
    (hconsult : search.consult (f.leaving left) v = (none, memo))
    (ha : ((u.solver problem options limits).attempt search.chosen (f.leaving left) v).outcome =
      .ok (.error failure)) :
    ((search.looking memo).reject (f.leaving left) v failure).Spares u problem picks := by
  have ho := hg.opens f hphase
  refine h.drop hphase hcand rfl rfl (fun n hn => ?_) fun hagrees hmeets hchooses => ?_
  · rcases FailureMemo.mem_record hn with hn | rfl
    · exact h.memo_consult hconsult n hn
    · exact Search.nogood_sound (f := f.leaving left) hc hsource hg.reached ho ha
  · obtain ⟨hneeded, hneeds⟩ := ho.wanted (PartialSolution.sound_of_reached hg.reached) hmeets
    have hb := hchooses.backs_next hsource hg.reached ho
    refine Solver.attempt_not_blamed (f := f.leaving left) hc hsource hg.reached ho ha hb hneeded
      hneeds fun root sel hs hi => Picks.Agrees.backsOf hagrees root sel hs ?_
    exact SortedSet.mem_filter.2 ⟨hi, decide_eq_true (PartialSolution.selected?_lt hs)⟩

/-- A jump back passes over nothing, and there is a decision to go back to, where the assignment
does not agree with all decisions to blame. -/
theorem jump_or_error (h : search.Spares u problem picks) (hsource : u.OneSource problem)
    (hreached : (u.solver problem options limits).Reached search.chosen) {root : String}
    {culprits : SortedSet Nat} {conflicts : List Conflict}
    (hnot : ¬ ∀ i ∈ culprits, picks.Agrees u problem search.chosen i) :
    (∀ next, Progress.ofJump (search.backjump root culprits conflicts) = .ok (.ongoing next) →
      next.Spares u problem picks) ∧
    ∀ e, Progress.ofJump (search.backjump root culprits conflicts) ≠ .error e := by
  refine ⟨fun next hnext => ?_, fun e herr => ?_⟩
  · exact h.jump hsource hreached hnot (Progress.ofJump_eq_ongoing hnext)
  · obtain ⟨fault, hj, -⟩ := Progress.ofJump_eq_error herr
    obtain ⟨-, hnone⟩ := Search.backjump_error hj
    -- the assignment agrees with any decision that was not made
    exact hnot fun i hi => .of_size_le (Nat.not_lt.1 (hnone i hi))

/-- A step does not pass over what a consistent assignment picks, and does not end
without a solution. -/
theorem step (hc : picks.Consistent u problem) (hsource : u.OneSource problem)
    (hfinds : Solver.Finds u (u.solver problem options limits) picks)
    (hvisits : (u.solver problem options limits).Visits search)
    (hdirect : search.chosen.Direct u problem options) (h : search.Spares u problem picks) :
    (∀ next, ((u.solver problem options limits).step search).outcome = .ok (.ongoing next) →
      next.Spares u problem picks) ∧
    ∀ root conflicts, ((u.solver problem options limits).step search).outcome ≠
      .error (.fault (.unsolvable root conflicts)) := by
  have hg := hvisits.grounded
  have hexplained := PartialSolution.explained_of_direct hg.reached hdirect hc
  have hsteps := Solver.steps u problem options limits search
  generalize ((u.solver problem options limits).step search).outcome = res at hsteps
  cases hsteps with
  | unanswered hphase hchoose =>
    obtain ⟨e', rfl⟩ := Solver.choose_stop hchoose
    simp [Stop.ofLookup]
  | complete => simp
  | select hphase hchoose =>
    refine ⟨fun next hnext => ?_, by simp⟩
    obtain rfl : _ = next := by simpa using hnext
    exact h.select hfinds hvisits hchoose rfl rfl rfl
  | stuck hphase hchoose =>
    obtain ⟨hnext, herr⟩ := h.jump_or_error hsource hg.reached
      (hfinds.not_agrees_stuck hvisits hexplained hchoose)
    exact ⟨hnext, fun _ _ => herr _⟩
  | spent hphase hcand =>
    obtain ⟨hnext, herr⟩ := h.jump_or_error hsource hg.reached
      (h.not_agrees_spent hg hexplained hphase hcand)
    exact ⟨hnext, fun _ _ => herr _⟩
  | @prune f v left roots memo hphase hcand hconsult =>
    refine ⟨fun next hnext => ?_, by simp⟩
    obtain rfl : _ = next := by simpa using hnext
    refine h.drop hphase hcand rfl rfl (h.memo_consult hconsult) ?_
    exact Search.not_chooses_of_consult (f := f.leaving left) hsource hg.reached h.memo
      (hg.opens f hphase) hconsult
  | accept hphase hcand hconsult ha =>
    refine ⟨fun next hnext => ?_, by simp⟩
    obtain rfl : _ = next := by simpa using hnext
    exact h.accept hphase hcand rfl rfl (h.memo_consult hconsult)
  | reject hphase hcand hconsult ha =>
    refine ⟨fun next hnext => ?_, by simp⟩
    obtain rfl : _ = next := by simpa using hnext
    exact h.reject hc hsource hg hphase hcand hconsult ha
  | halt hphase hcand hconsult ha =>
    rcases Solver.attempt_stop ha with rfl | ⟨e', rfl⟩
    · simp
    · simp [Stop.ofLookup]

end Search.Spares

end Step

/-! ## Runs -/

namespace Solver

/-- A search does not pass over what a consistent assignment picks. -/
theorem Visits.spares {search : Search} (hc : picks.Consistent u problem)
    (hsource : u.OneSource problem) (hfinds : Finds u (u.solver problem options limits) picks)
    (hdirect : ∀ search, (u.solver problem options limits).Visits search →
      search.chosen.Direct u problem options)
    (h : (u.solver problem options limits).Visits search) : search.Spares u problem picks := by
  induction h with
  | start => exact .start
  | @step search next hvisits hstep ih =>
    exact (ih.step hc hsource hfinds hvisits (hdirect search hvisits)).1 next hstep

/-- A run without a solution was ended by a step of the search. -/
theorem exists_visits_of_unsolvable {root : String} {conflicts : List Conflict}
    (h : (u.solver problem options u.limits).run.outcome =
      .error (.fault (.unsolvable root conflicts))) :
    ∃ search, (u.solver problem options u.limits).Visits search ∧
      ((u.solver problem options u.limits).step search).outcome =
        .error (.fault (.unsolvable root conflicts)) := by
  rw [run_eq_runBy] at h
  rcases runBy_stop walks_step h with h | hstop
  · obtain ⟨e', he⟩ := baseRequirements_stop h
    simp [Stop.ofLookup] at he
  · exact hstop

/-! ## Versions that are found -/

/-- A version of a project that is among its candidates wherever a solver looks them up, unless a
requirement does not accept it. -/
inductive Foresees (u : Universe) (s : Solver Unit) (project : Project) : Version → Prop
  | listed {v : Version} : u.Lists project v → Foresees u s project v
  /-- It is a revision that is there, and whenever the project waits a requirement names it. -/
  | named {r : Revision} : u.hasRevision project r = .ok true →
      (∀ search, s.Visits search → ∀ waiting requirements,
        (waiting, requirements) ∈ search.chosen.waiting → waiting.root = project.root →
          ∃ q ∈ requirements, q.constraint = .revision r) → Foresees u s project (.revision r)
  /-- It is locked, there, and not to change. -/
  | locked {lock : Lock} {entry : LockedProject} : s.problem.lock = some lock →
      lock.find? project.root = some entry → entry.project.location = project.location →
      u.Has project entry.version → s.options.changeAll = false →
      s.options.toChange.contains project.root = false → Foresees u s project entry.version

/-- What a consistent assignment picks is found, if it is foreseen. -/
theorem finds_of_foresees (hc : picks.Consistent u problem) (hsource : u.OneSource problem)
    (h : ∀ root project v, picks root = some (project, v) →
      (u.solver problem options limits).Foresees u project v) :
    Finds u (u.solver problem options limits) picks := by
  intro search hvisits project requirements candidates hmem hcand hmeets
  obtain ⟨-, rfl, r, hr, rfl⟩ := PartialSolution.of_mem_waiting hmem
  have hreached := hvisits.grounded.reached
  have hsound := PartialSolution.sound_of_reached hreached
  have hoffers := candidates_offers hcand
  obtain ⟨q, hn⟩ := (hmeets r hr).needed
  obtain ⟨project, version, tree, imports, hpick, ht, -⟩ := hc.provided hn
  have hroot := hc.rooted hpick
  have hloc := (hmeets r hr).located _ _ hpick
  have hat : project.AtHome problem := by
    have hhome : r.project.location = problem.home r.project.root :=
      PartialSolution.atHome_of_reached hsource hreached r
        (PartialSolution.mem_requirementsOn.1 hr).1
    show project.location = problem.home project.root
    rw [hloc, hhome, hroot]
  have hadmitted : admittedBy (search.chosen.requirementsOn r.project.root) version = true := by
    refine admittedBy_iff.2 fun x hx => ?_
    obtain ⟨hx', hroot'⟩ := PartialSolution.mem_requirementsOn.1 hx
    exact (hmeets x hx).admits hc (fun hi => (hsound.internal x hx' hi).1) (hroot' ▸ hpick)
  have hchooses : ∀ w ∈ candidates, w.StandsFor version →
      ∃ w ∈ candidates, picks.Chooses problem r.project.root w := fun w hw hst =>
    ⟨w, hw, project, version, hpick, hroot, hat, hst⟩
  -- where the version is from tells why it is a candidate
  cases h _ _ _ hpick with
  | listed hlists =>
    obtain ⟨versions, hv, b, hb, rfl⟩ := hlists
    obtain ⟨w, hw, hst⟩ := hoffers.listed _
      ⟨versions, by rw [← u.versions_congr hroot hloc]; exact hv, b, hb, rfl⟩ hadmitted
    exact hchooses w hw hst
  | @named rev hhas hnamed =>
    obtain ⟨w, hw, hst⟩ := hoffers.named rev (hnamed search hvisits _ _ hmem hroot.symm)
      (by rw [← u.hasRevision_congr rev hroot hloc]; exact hhas) hadmitted
    exact hchooses w hw hst
  | @locked lock entry hlock hfind hlocation hhas hall hkeep =>
    obtain ⟨rev, hrev, hthere⟩ := hhas
    have hhead := hoffers.locked entry
      ⟨hall, by rw [← hroot]; exact hkeep, ⟨lock, hlock, by rw [← hroot]; exact hfind⟩,
        hlocation.trans hloc, hadmitted⟩
      ⟨rev, hrev, by rw [← u.hasRevision_congr rev hroot hloc]; exact hthere⟩
    exact hchooses _ (List.mem_of_mem_head? hhead) (.refl hrev)

end Solver

/-- A run that ends without a solution leaves no consistent assignment of versions that are
foreseen. -/
theorem Solver.not_consistent_of_unsolvable {root : String} {conflicts : List Conflict}
    (h : (u.solver problem options u.limits).run.outcome =
      .error (.fault (.unsolvable root conflicts))) (hsource : u.OneSource problem)
    (hdirect : ∀ search, (u.solver problem options u.limits).Visits search →
      search.chosen.Direct u problem options)
    (hforeseen : ∀ root project v, picks root = some (project, v) →
      (u.solver problem options u.limits).Foresees u project v) : ¬ picks.Consistent u problem := by
  intro hc
  obtain ⟨search, hvisits, hstep⟩ := exists_visits_of_unsolvable h
  have hfinds := finds_of_foresees hc hsource hforeseen
  have hspares := hvisits.spares hc hsource hfinds hdirect
  exact (hspares.step hc hsource hfinds hvisits (hdirect search hvisits)).2 root conflicts hstep

/-- Where a problem has no solution, no assignment is consistent: with one place for each project,
with requirements that the decisions to blame explain, and of versions that are foreseen. -/
theorem Provider.no_consistent_of_unsolvable {p : Provider} {problem : Problem}
    {options : SolveOptions} {root : String} {conflicts : List Conflict}
    (h : (p.solve problem options).1 = .error (.fault (.unsolvable root conflicts)))
    (hsource : p.world.OneSource problem)
    (hdirect : ∀ search, (p.world.solver problem options p.world.limits).Visits search →
      search.chosen.Direct p.world problem options) :
    ¬ ∃ picks : Picks, picks.Consistent p.world problem ∧
      ∀ root project v, picks root = some (project, v) →
        (p.world.solver problem options p.world.limits).Foresees p.world project v := by
  rintro ⟨picks, hc, hforeseen⟩
  rcases p.solve_eq problem options with he | he
  · simp [he] at h
  · rw [he] at h
    exact Solver.not_consistent_of_unsolvable h hsource hdirect hforeseen hc

/-- A universe with a tool that wants another branch of a library than there is. -/
def Universe.withClash : Universe :=
  (Universe.empty.register "example.com/lib" [Snapshot.bare (.tag "v1.0.0") ⟨"b1"⟩]).register
    "example.com/tool" [((Snapshot.bare (.tag "v1.0.0") ⟨"a1"⟩).withPackage "."
      (.ofList ["example.com/lib"])).withTerms "example.com/lib" ⟨none, .branch "next"⟩]

/-- A problem that imports the library and the tool. -/
def Problem.importingBoth : Problem :=
  (Problem.new "example.com/app" .empty).withImports
    (.ofList ["example.com/lib", "example.com/tool"])

/-- Whether a run has ended without a solution. -/
def Stop.isUnsolvable : Except Stop Solution → Bool
  | .error (.fault (.unsolvable _ _)) => true
  | _ => false

theorem Stop.exists_of_isUnsolvable {result : Except Stop Solution}
    (h : isUnsolvable result = true) :
    ∃ root conflicts, result = .error (.fault (.unsolvable root conflicts)) := by
  unfold isUnsolvable at h
  split at h
  · exact ⟨_, _, rfl⟩
  · simp at h

/-- There is no solution with the clash, and no consistent assignment of versions that are
foreseen. -/
theorem Provider.no_consistent_of_clash :
    (∃ root conflicts, ((Provider.new .withClash).solve .importingBoth .keep).1 =
      .error (.fault (.unsolvable root conflicts))) ∧
    ¬ ∃ picks : Picks, picks.Consistent .withClash .importingBoth ∧
      ∀ root project v, picks root = some (project, v) →
        (Universe.withClash.solver .importingBoth .keep Universe.withClash.limits).Foresees
          .withClash project v := by
  obtain ⟨root, conflicts, h⟩ : ∃ root conflicts,
      ((Provider.new .withClash).solve .importingBoth .keep).1 =
        .error (.fault (.unsolvable root conflicts)) :=
    Stop.exists_of_isUnsolvable (by decide +kernel)
  have hsource : Universe.withClash.OneSource .importingBoth :=
    Universe.oneSource_of_overrides (by decide) (by decide)
  have hchecks :
      (Universe.withClash.solver .importingBoth .keep Universe.withClash.limits).checksRun
      (fun search => search.chosen.Direct .withClash .importingBoth .keep) 20 = true := by
    decide +kernel
  refine ⟨⟨root, conflicts, h⟩, no_consistent_of_unsolvable h hsource fun search hvisits => ?_⟩
  exact of_decide_eq_true (hvisits.of_checksRun hchecks)

end Depsolve
