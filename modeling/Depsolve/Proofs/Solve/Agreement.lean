import Depsolve.Proofs.Solve.Bare
import Depsolve.Proofs.Solve.Completeness
import Depsolve.Proofs.Solve.Plain

/-!
# Jumps back lose nothing

Where the decisions to blame explain the failures, a solver finds what the plain search finds.
Both go through the same tree of decisions in the same order; a solver leaves some branches out.
Neither goes past a solution (`Search.NotPast`): the plain search because it leaves nothing out, a
solver because the solution would agree with all decisions to blame. So the first solution is the
same for both.
-/

namespace Depsolve

variable {u : Universe} {problem : Problem} {options : SolveOptions} {limits : Limits}
  {p q : PartialSolution}

namespace PartialSolution

theorem take_succ {i : Nat} {d : Decision} (hd : p.decision? i = some d) :
    p.take (i + 1) = (p.take i).push d := by
  have hd' : p.decisions[i]? = some d := hd
  simp only [take, push]
  rw [List.take_add_one, hd']
  rfl

theorem take_of_size_le {n : Nat} (h : p.size ≤ n) : p.take n = p := by
  simp only [take]
  rw [List.take_of_length_le h]

theorem bare_push {d : Decision} : (p.push d).bare = p.bare.push d.bare := by
  simp [bare, push]

/-- The same decisions, up to a number, are the same up to a smaller one. -/
theorem bare_take_of_le {m n : Nat} (h : (q.take n).bare = (p.take n).bare) (hm : m ≤ n) :
    (q.take m).bare = (p.take m).bare := by
  rw [← take_take hm, ← take_bare, h, take_bare, take_take hm]

/-- The same decisions differ only in what else could be chosen and what was blamed. -/
theorem exists_decision?_of_bare {n i : Nat} (h : (q.take n).bare = (p.take n).bare) (hi : i < n)
    {d : Decision} (hd : p.decision? i = some d) :
    ∃ e, q.decision? i = some e ∧ e.bare = d.bare := by
  have hbare := congrArg (fun p : PartialSolution => p.decision? i) h
  simp only [decision?_bare, decision?_take hi, hd, Option.map_some] at hbare
  exact Option.map_eq_some_iff.1 hbare

end PartialSolution

/-! ## Going on as a solution does -/

namespace Solver

theorem Reached.baseRequirements {s : Solver Unit} (h : s.Reached p) :
    s.baseRequirements.outcome = .ok p.base := by
  induction h with
  | base hb => exact hb
  | push _ _ _ ih => exact ih

theorem Reached.bare_take_zero {s : Solver Unit} (hp : s.Reached p) (hq : s.Reached q) :
    (q.take 0).bare = (p.take 0).bare := by
  have hbase : q.base = p.base := by
    have := hq.baseRequirements
    rw [hp.baseRequirements] at this
    exact (Except.ok.inj this).symm
  simp [PartialSolution.bare, PartialSolution.take, hbase]

theorem choose_of_waiting {s : Solver Unit} (h : p.waiting = []) :
    (s.choose p).outcome = .ok .complete := by
  rw [choose, h]
  rfl

/-- A solution has decided on the project that is next, on one of its candidates. -/
theorem Reached.exists_decision_of_choose {s : Solver Unit} (hq : s.Reached q) (hw : q.waiting = [])
    {n : Nat} (h : (q.take n).bare = p.bare) {project : Project} {candidates : List Version}
    (hc : (s.choose p).outcome = .ok (.project project candidates)) :
    ∃ e, q.decision? n = some e ∧ e.frame.project = project ∧
      (e.version :: e.frame.candidates) <:+ candidates := by
  rw [← choose_congr h] at hc
  by_cases hn : n < q.size
  · obtain ⟨e, he⟩ := PartialSolution.exists_decision? hn
    obtain ⟨-, ⟨candidates', hc', hsuffix⟩, -⟩ := hq.decision he
    rw [hc] at hc'
    obtain ⟨rfl, rfl⟩ : project = e.frame.project ∧ candidates = candidates' := by simpa using hc'
    exact ⟨e, he, rfl, hsuffix⟩
  · rw [PartialSolution.take_of_size_le (Nat.not_lt.1 hn), choose_of_waiting hw] at hc
    simp at hc

/-- A solution does not come from where a project has no candidate. -/
theorem Reached.not_stuck {s : Solver Unit} (hq : s.Reached q) (hw : q.waiting = []) {n : Nat}
    (h : (q.take n).bare = p.bare) {root : String} {requirements : List Requirement} :
    (s.choose p).outcome ≠ .ok (.stuck root requirements) := by
  intro hc
  rw [← choose_congr h] at hc
  by_cases hn : n < q.size
  · obtain ⟨e, he⟩ := PartialSolution.exists_decision? hn
    obtain ⟨-, ⟨candidates', hc', -⟩, -⟩ := hq.decision he
    simp [hc] at hc'
  · rw [PartialSolution.take_of_size_le (Nat.not_lt.1 hn), choose_of_waiting hw] at hc
    simp at hc

/-- Two partial solutions that have decided in the same way decide on the same project next. -/
theorem Opens.project_eq {s : Solver Unit} {project project' : Project} {left left' : List Version}
    (hp : s.Opens p project left) (hq : s.Opens q project' left') (h : q.bare = p.bare) :
    project' = project := by
  obtain ⟨candidates, hc, -⟩ := hp
  obtain ⟨candidates', hc', -⟩ := hq
  rw [choose_congr h, hc] at hc'
  exact ((Choice.project.inj (Except.ok.inj hc')).1).symm

/-- Two partial solutions that have decided in the same way, and then on the same
version, still have. -/
theorem Reached.bare_take_succ {s : Solver Unit} (hp : s.Reached p) (hq : s.Reached q) {i : Nat}
    {d e : Decision} (hd : p.decision? i = some d) (he : q.decision? i = some e)
    (h : (q.take i).bare = (p.take i).bare) (hv : e.version = d.version) :
    (q.take (i + 1)).bare = (p.take (i + 1)).bare := by
  obtain ⟨-, ho, ha⟩ := hp.decision hd
  obtain ⟨-, ho', ha'⟩ := hq.decision he
  have hproject := ho.project_eq ho' h
  rw [attempt_congr h hproject, hv, ha] at ha'
  have hadded : d.added = e.added := by simpa using ha'
  rw [PartialSolution.take_succ hd, PartialSolution.take_succ he, PartialSolution.bare_push,
    PartialSolution.bare_push, h]
  simp only [Decision.bare, hproject, hv, hadded]

/-- A version that fails is not the one that a solution has decided on. -/
theorem Reached.ne_of_fails {s : Solver Unit} (hq : s.Reached q) {n : Nat}
    (h : (q.take n).bare = p.bare) {e : Decision} (he : q.decision? n = some e) {f : Frame}
    {v : Version} {left : List Version} (ho : s.Opens p f.project left) {failure : Failure}
    (ha : (s.attempt p f v).outcome = .ok (.error failure)) : e.version ≠ v := by
  rintro rfl
  obtain ⟨-, ho', ha'⟩ := hq.decision he
  rw [attempt_congr h (ho.project_eq ho' h), ha] at ha'
  simp at ha'

end Solver

/-! ## Not going past a solution -/

/-- A search has not gone past a solution: as far as it has decided as the solution does, what the
solution chose is chosen or among the candidates that are left. -/
structure Search.NotPast (q : PartialSolution) (search : Search) : Prop where
  /-- For projects that were decided on. -/
  decided : ∀ i d, search.chosen.decision? i = some d →
    (q.take i).bare = (search.chosen.take i).bare → ∃ e, q.decision? i = some e ∧
      (e.version :: e.frame.candidates) <:+ (d.version :: d.frame.candidates)
  /-- For the project at hand. -/
  trying : ∀ f, search.phase = .trying f → (q.take search.chosen.size).bare = search.chosen.bare →
    ∃ e, q.decision? search.chosen.size = some e ∧
    (e.version :: e.frame.candidates) <:+ f.candidates

namespace Search.NotPast

variable {s : Solver Unit} {search next : Search}

theorem start {base : List Requirement} : (Search.start base).NotPast q :=
  ⟨by simp [Search.start, PartialSolution.decision?], by simp [Search.start]⟩

theorem select (h : search.NotPast q) (hq : s.Reached q) (hw : q.waiting = []) {project : Project}
    {candidates : List Version}
    (hc : (s.choose search.chosen).outcome = .ok (.project project candidates))
    (hchosen : next.chosen = search.chosen)
    (hnext : next.phase = .trying (.start project candidates)) : next.NotPast q := by
  refine ⟨by rw [hchosen]; exact h.decided, fun f hf hbare => ?_⟩
  obtain rfl : Frame.start project candidates = f := by simpa [hnext] using hf
  rw [hchosen] at hbare ⊢
  obtain ⟨e, he, -, hsuffix⟩ := hq.exists_decision_of_choose hw hbare hc
  exact ⟨e, he, hsuffix⟩

theorem accept (h : search.NotPast q) {f : Frame} {v : Version} {left : List Version}
    {added : List Requirement} (hphase : search.phase = .trying f)
    (hcand : f.candidates = v :: left)
    (hchosen : next.chosen = search.chosen.push ⟨f.leaving left, v, added⟩)
    (hnext : next.phase = .deciding) : next.NotPast q := by
  refine ⟨fun i d hd hbare => ?_, fun f hf => by simp [hnext] at hf⟩
  rw [hchosen] at hd hbare
  rcases PartialSolution.decision?_push_eq hd with ⟨hi, hd⟩ | ⟨rfl, rfl⟩
  · rw [PartialSolution.take_push (Nat.le_of_lt hi)] at hbare
    exact h.decided i d hd hbare
  · rw [PartialSolution.take_push (Nat.le_refl _), PartialSolution.take_size] at hbare
    obtain ⟨e, he, hsuffix⟩ := h.trying f hphase hbare
    rw [hcand] at hsuffix
    exact ⟨e, he, hsuffix⟩

/-- A candidate that a solution has not chosen can be given up. -/
theorem drop (h : search.NotPast q) {f f' : Frame} {v : Version} {left : List Version}
    (hphase : search.phase = .trying f) (hcand : f.candidates = v :: left)
    (hchosen : next.chosen = search.chosen) (hnext : next.phase = .trying f')
    (hleft : f'.candidates = left)
    (hnot : ∀ e, (q.take search.chosen.size).bare = search.chosen.bare →
      q.decision? search.chosen.size = some e → e.version ≠ v) : next.NotPast q := by
  refine ⟨by rw [hchosen]; exact h.decided, fun f'' hf hbare => ?_⟩
  obtain rfl : f' = f'' := by simpa [hnext] using hf
  rw [hchosen] at hbare ⊢
  obtain ⟨e, he, hsuffix⟩ := h.trying f hphase hbare
  rw [hcand, List.suffix_cons_iff] at hsuffix
  rcases hsuffix with heq | hsuffix
  · exact absurd (List.cons.inj heq).1 (hnot e hbare he)
  · exact ⟨e, he, hleft ▸ hsuffix⟩

/-- A decision that a solution has not made can be given up, with all later ones. -/
theorem jump (h : search.NotPast q) (hq : s.Reached q) (hreached : s.Reached search.chosen)
    {i : Nat} {d : Decision} {f' : Frame} (hd : search.chosen.decision? i = some d)
    (hchosen : next.chosen = search.chosen.take i) (hnext : next.phase = .trying f')
    (hleft : f'.candidates = d.frame.candidates)
    (hnot : (q.take (i + 1)).bare ≠ (search.chosen.take (i + 1)).bare) : next.NotPast q := by
  have hsize : (search.chosen.take i).size = i :=
    PartialSolution.size_take (Nat.le_of_lt (PartialSolution.decision?_lt hd))
  refine ⟨fun j e he hbare => ?_, fun f hf hbare => ?_⟩
  · rw [hchosen] at he hbare
    have hj : j < i := hsize ▸ PartialSolution.decision?_lt he
    rw [PartialSolution.decision?_take hj] at he
    rw [PartialSolution.take_take (Nat.le_of_lt hj)] at hbare
    exact h.decided j e he hbare
  · obtain rfl : f' = f := by simpa [hnext] using hf
    rw [hchosen, hsize] at hbare ⊢
    obtain ⟨e, he, hsuffix⟩ := h.decided i d hd hbare
    -- the solution made the decision, or chose among the candidates that were left
    rw [List.suffix_cons_iff] at hsuffix
    rcases hsuffix with heq | hsuffix
    · exact absurd (hreached.bare_take_succ hq hd he hbare (List.cons.inj heq).1) hnot
    · exact ⟨e, he, hleft ▸ hsuffix⟩

/-- Two finished searches that have not gone past each other's solution have found the same. -/
theorem bare_eq {other : Search} (h : search.NotPast other.chosen)
    (h' : other.NotPast search.chosen) (hp : s.Reached search.chosen)
    (hq : s.Reached other.chosen) : other.chosen.bare = search.chosen.bare := by
  -- up to any number of decisions, by induction on the number
  have htake : ∀ n, (other.chosen.take n).bare = (search.chosen.take n).bare := by
    intro n
    induction n with
    | zero => exact hp.bare_take_zero hq
    | succ n ih =>
      by_cases hn : n < search.chosen.size
      · obtain ⟨d, hd⟩ := PartialSolution.exists_decision? hn
        obtain ⟨e, he, hsuffix⟩ := h.decided n d hd ih
        -- neither is past the other, so both have the same candidates left and the same version
        obtain ⟨d', hd', hsuffix'⟩ := h'.decided n e he ih.symm
        obtain rfl : d = d' := by simpa [hd] using hd'
        have heq := hsuffix.eq_of_length_le hsuffix'.length_le
        exact hp.bare_take_succ hq hd he ih (List.cons.inj heq).1
      · have hn' : ¬ n < other.chosen.size := by
          intro hlt
          obtain ⟨e, he⟩ := PartialSolution.exists_decision? hlt
          obtain ⟨d, hd, -⟩ := h'.decided n e he ih.symm
          exact hn (PartialSolution.decision?_lt hd)
        rw [PartialSolution.take_of_size_le (by omega), PartialSolution.take_of_size_le (by omega)]
        rw [PartialSolution.take_of_size_le (by omega), PartialSolution.take_of_size_le (by omega)]
          at ih
        exact ih
  have hall := htake (max search.chosen.size other.chosen.size)
  rwa [PartialSolution.take_of_size_le (by omega), PartialSolution.take_of_size_le (by omega)]
    at hall

end Search.NotPast

/-! ## The solver does not go past a solution -/

namespace Solver

/-- The assignment of a solution agrees with the decisions that the solution has made as well. -/
theorem Reached.agrees_picks (hq : (u.solver problem options limits).Reached q) (hc : q.Complete)
    {n i : Nat} (h : (q.take n).bare = (p.take n).bare) (hi : i < n) :
    q.picks.Agrees u problem p i := by
  have hsound := PartialSolution.sound_of_reached hq
  refine ⟨fun d hd => ?_, fun d hd x hx => ?_⟩
  · obtain ⟨e, he, hbare⟩ := PartialSolution.exists_decision?_of_bare h hi hd
    obtain ⟨j, hs⟩ := hsound.selected?_of_mem (PartialSolution.mem_of_decision? he)
    have hb := hsound.backsAll_picks _ _ hs
    have hproject : e.frame.project = d.frame.project := congrArg (·.frame.project) hbare
    have hversion : e.version = d.version := congrArg (·.version) hbare
    simp only [PartialSolution.selection, hproject, hversion] at hb
    exact hb
  · have hon : (p.take i).requirementsOn d.root = (q.take i).requirementsOn d.root := by
      rw [← PartialSolution.requirementsOn_bare, ← PartialSolution.bare_take_of_le h
        (Nat.le_of_lt hi), PartialSolution.requirementsOn_bare]
    rw [hon] at hx
    -- a package that is required early is needed in the end
    obtain ⟨r, hr, hx⟩ := mem_packagesOf.1 hx
    obtain ⟨hr, hroot⟩ := PartialSolution.mem_requirementsOn.1 hr
    exact (PartialSolution.mem_packagesOf_iff_needs hq hc (hsound.consistent_picks hc)
      hsound.backsAll_picks).1 (PartialSolution.mem_packagesOf_of_mem
        (PartialSolution.mem_requirements_of_take hr) hroot hx)

variable {search next : Search}

/-- A version that is passed over as known to fail is not the one that a solution has decided on. -/
theorem Reached.ne_of_consult (hq : (u.solver problem options limits).Reached q)
    (hw : q.waiting = []) (hsource : u.OneSource problem)
    (hreached : (u.solver problem options limits).Reached search.chosen)
    (hmemo : ∀ n ∈ search.memo.nogoods, n.Sound u problem q.picks) {f : Frame} {v : Version}
    {left : List Version}
    (ho : (u.solver problem options limits).Opens search.chosen f.project left)
    {roots : List String} {memo : FailureMemo} (hconsult : search.consult f v = (some roots, memo))
    (hbare : (q.take search.chosen.size).bare = search.chosen.bare) {e : Decision}
    (he : q.decision? search.chosen.size = some e) : e.version ≠ v := by
  intro hv
  have hsound := PartialSolution.sound_of_reached hq
  have hcomplete := PartialSolution.complete_of_waiting hw
  have hc := hsound.consistent_picks hcomplete
  obtain ⟨-, ho', -⟩ := hq.decision he
  have hproject := ho.project_eq ho' hbare
  have hbare' : (q.take search.chosen.size).bare =
      (search.chosen.take search.chosen.size).bare := by
    rw [PartialSolution.take_size]
    exact hbare
  refine Search.not_chooses_of_consult hsource hreached hmemo ho hconsult (fun i hi => ?_)
    (fun r hr => ?_) ?_
  · by_cases hi' : i < search.chosen.size
    · exact hq.agrees_picks hcomplete hbare' hi'
    · exact .of_size_le (Nat.not_lt.1 hi')
  -- what is required of the project is required in the solution as well
  · have hr' : r ∈ (q.take search.chosen.size).requirements := by
      rw [← PartialSolution.requirements_bare, hbare, PartialSolution.requirements_bare]
      exact (PartialSolution.mem_requirementsOn.1 hr).1
    exact hq.meets hc hsound.backsAll_picks r (PartialSolution.mem_requirements_of_take hr')
  · obtain ⟨j, hs⟩ := hsound.selected?_of_mem (PartialSolution.mem_of_decision? he)
    have hchooses : q.picks.Chooses problem e.frame.project.root e.version :=
      (hsound.backsAll_picks _ _ hs).chooses (hsound.atHome_of_mem
        (PartialSolution.atHome_of_reached hsource hq) (PartialSolution.mem_of_decision? he))
    rwa [hproject, hv] at hchooses

/-- A jump back over decisions that a solution does not agree with does not go past it. -/
theorem notPast_jump (hq : (u.solver problem options limits).Reached q) (hw : q.waiting = [])
    (hreached : (u.solver problem options limits).Reached search.chosen) (h : search.NotPast q)
    {root : String} {culprits : SortedSet Nat} {conflicts : List Conflict}
    (hnot : ¬ ∀ i ∈ culprits, q.picks.Agrees u problem search.chosen i)
    (hj : search.backjump root culprits conflicts = .ok next) : next.NotPast q := by
  obtain ⟨i, d, hd, -, hmax, hchosen, hnext, -⟩ := Search.backjump_ok hj
  -- a solution that has made the decision to go back to agrees with all decisions to blame
  refine h.jump hq hreached hd hchosen hnext rfl fun hbare => hnot fun k hk => ?_
  by_cases hk' : k < search.chosen.size
  · exact hq.agrees_picks (PartialSolution.complete_of_waiting hw) hbare
      (Nat.lt_succ_of_le (hmax k hk hk'))
  · exact .of_size_le (Nat.not_lt.1 hk')

/-- A step of a solver does not go past a solution that it finds, where the decisions to blame
explain the failures. -/
theorem notPast_step (hsource : u.OneSource problem)
    (hdirect : ∀ search, (u.solver problem options limits).Visits search →
      search.chosen.Direct u problem options)
    (hq : (u.solver problem options limits).Reached q) (hw : q.waiting = [])
    (hfinds : Finds u (u.solver problem options limits) q.picks)
    (hvisits : (u.solver problem options limits).Visits search) (h : search.NotPast q)
    (hstep : ((u.solver problem options limits).step search).outcome = .ok (.ongoing next)) :
    next.NotPast q := by
  have hc := (PartialSolution.sound_of_reached hq).consistent_picks
    (PartialSolution.complete_of_waiting hw)
  have hg := hvisits.grounded
  have hspares := hvisits.spares hc hsource hfinds hdirect
  have hexplained := PartialSolution.explained_of_direct hg.reached (hdirect search hvisits) hc
  have hsteps := steps u problem options limits search
  rw [hstep] at hsteps
  generalize hres : (Except.ok (.ongoing next) : Except Stop Progress) = res at hsteps
  cases hsteps with
  | unanswered => simp at hres
  | complete => simp at hres
  | halt => simp at hres
  | select hphase hchoose =>
    obtain rfl : next = _ := by simpa using hres
    exact h.select hq hw hchoose rfl rfl
  | stuck hphase hchoose =>
    exact notPast_jump hq hw hg.reached h (hfinds.not_agrees_stuck hvisits hexplained hchoose)
      (Progress.ofJump_eq_ongoing hres.symm)
  | spent hphase hcand =>
    exact notPast_jump hq hw hg.reached h (hspares.not_agrees_spent hg hexplained hphase hcand)
      (Progress.ofJump_eq_ongoing hres.symm)
  | accept hphase hcand hconsult ha =>
    obtain rfl : next = _ := by simpa using hres
    exact h.accept hphase hcand rfl rfl
  | @reject f v left memo failure hphase hcand hconsult ha =>
    obtain rfl : next = _ := by simpa using hres
    exact h.drop hphase hcand rfl rfl rfl fun e hbare he =>
      hq.ne_of_fails (f := f.leaving left) hbare he (hg.opens f hphase) ha
  | @prune f v left roots memo hphase hcand hconsult =>
    obtain rfl : next = _ := by simpa using hres
    exact h.drop hphase hcand rfl rfl rfl fun e hbare he =>
      hq.ne_of_consult (f := f.leaving left) hw hsource hg.reached hspares.memo (hg.opens f hphase)
        hconsult hbare he

/-- A step of the plain search does not go past a solution. -/
theorem notPast_plainStep {s : Solver Unit} (hq : s.Reached q) (hw : q.waiting = [])
    (hg : s.Grounded search) (h : search.NotPast q)
    (hstep : (s.plainStep search).outcome = .ok (.ongoing next)) : next.NotPast q := by
  have hjump : ∀ {root}, (q.take search.chosen.size).bare ≠ search.chosen.bare →
      search.stepBack root = .ok next → next.NotPast q := by
    intro root hnot hj
    obtain ⟨i, d, hsize, hd, hchosen, hnext⟩ := Search.stepBack_ok hj
    refine h.jump hq hg.reached hd hchosen hnext rfl ?_
    rwa [← hsize, PartialSolution.take_size]
  have hsteps := plainSteps s search
  rw [hstep] at hsteps
  generalize hres : (Except.ok (.ongoing next) : Except Stop Progress) = res at hsteps
  cases hsteps with
  | unanswered => simp at hres
  | complete => simp at hres
  | halt => simp at hres
  | select hphase hchoose =>
    obtain rfl : next = _ := by simpa using hres
    exact h.select hq hw hchoose rfl rfl
  | stuck hphase hchoose =>
    exact hjump (fun hbare => hq.not_stuck hw hbare hchoose) (Progress.ofJump_eq_ongoing hres.symm)
  | @spent f hphase hcand =>
    refine hjump (fun hbare => ?_) (Progress.ofJump_eq_ongoing hres.symm)
    obtain ⟨e, -, hsuffix⟩ := h.trying f hphase hbare
    simp [hcand] at hsuffix
  | accept hphase hcand ha =>
    obtain rfl : next = _ := by simpa using hres
    exact h.accept hphase hcand rfl rfl
  | @reject f v left failure hphase hcand ha =>
    obtain rfl : next = _ := by simpa using hres
    exact h.drop hphase hcand rfl rfl rfl fun e hbare he =>
      hq.ne_of_fails (f := f.leaving left) hbare he (hg.opens f hphase) ha

/-! ## Runs -/

/-- A solver does not go past a solution that it finds, where the decisions to blame
explain the failures. -/
theorem Visits.notPast (hsource : u.OneSource problem)
    (hdirect : ∀ search, (u.solver problem options limits).Visits search →
      search.chosen.Direct u problem options)
    (hq : (u.solver problem options limits).Reached q) (hw : q.waiting = [])
    (hfinds : Finds u (u.solver problem options limits) q.picks)
    (h : (u.solver problem options limits).Visits search) : search.NotPast q := by
  induction h with
  | start => exact .start
  | step hvisits hstep ih => exact notPast_step hsource hdirect hq hw hfinds hvisits ih hstep

/-- The plain search does not go past any solution. -/
theorem VisitsBy.notPast {s : Solver Unit} (hq : s.Reached q) (hw : q.waiting = [])
    (h : s.VisitsBy s.plainStep search) : search.NotPast q := by
  induction h with
  | start => exact .start
  | step hvisits hstep ih =>
    exact notPast_plainStep hq hw (hvisits.grounded walks_plainStep) ih hstep

/-- A plain search that goes no further has met a fault of the source, or there is no solution that
it could go past. -/
theorem VisitsBy.plainStep_stop (hdepth : u.importCount < limits.depth)
    (h : (u.solver problem options limits).VisitsBy
      (u.solver problem options limits).plainStep search)
    {e : Stop}
    (hstep : ((u.solver problem options limits).plainStep search).outcome = .error e) :
    (∃ e', e = .ofLookup e') ∨ (∃ root conflicts, e = .fault (.unsolvable root conflicts)) ∧
      ∀ q, (u.solver problem options limits).Reached q → q.waiting ≠ [] := by
  have hg := h.grounded walks_plainStep
  -- without a decision to go back to, a solution would have to go on as the search has not
  have hback : ∀ {root}, Progress.ofJump (search.stepBack root) = .error e →
      (∀ q, (u.solver problem options limits).Reached q → q.waiting = [] →
        (q.take search.chosen.size).bare ≠ search.chosen.bare) →
      (∃ root conflicts, e = .fault (.unsolvable root conflicts)) ∧
        ∀ q, (u.solver problem options limits).Reached q → q.waiting ≠ [] := by
    intro root hj hnot
    obtain ⟨fault, herror, rfl⟩ := Progress.ofJump_eq_error hj
    obtain ⟨rfl, hsize⟩ := Search.stepBack_error herror
    refine ⟨⟨_, _, rfl⟩, fun q hq hw => hnot q hq hw ?_⟩
    have hzero := hg.reached.bare_take_zero hq
    rwa [PartialSolution.take_of_size_le (Nat.le_of_eq hsize), ← hsize] at hzero
  have hsteps := plainSteps (u.solver problem options limits) search
  rw [hstep] at hsteps
  generalize hres : (Except.error e : Except Stop Progress) = res at hsteps
  cases hsteps with
  | complete => simp at hres
  | select => simp at hres
  | accept => simp at hres
  | reject => simp at hres
  | unanswered hphase hchoose =>
    obtain rfl : e = _ := by simpa using hres
    exact .inl (choose_stop hchoose)
  | stuck hphase hchoose =>
    exact .inr (hback hres.symm fun q hq hw hbare => hq.not_stuck hw hbare hchoose)
  | @spent f hphase hcand =>
    refine .inr (hback hres.symm fun q hq hw hbare => ?_)
    obtain ⟨e', -, hsuffix⟩ := (h.notPast hq hw).trying f hphase hbare
    simp [hcand] at hsuffix
  | @halt f v left e' hphase hcand ha =>
    obtain rfl : e = e' := by simpa using hres
    rcases attempt_stop ha with rfl | hlookup
    · exact absurd ha (attempt_not_exhausted (f := f.leaving left) hdepth
        (hg.opens f hphase).selected?)
    · exact .inl hlookup

/-- A run of the plain search that goes wrong has met a fault of the source, or there is no
solution. -/
theorem plainRun_stop {e : Stop}
    (h : (u.solver problem options u.limits).plainRun.outcome = .error e) :
    (∃ e', e = .ofLookup e') ∨ (∃ root conflicts, e = .fault (.unsolvable root conflicts)) ∧
      ∀ q, (u.solver problem options u.limits).Reached q → q.waiting ≠ [] := by
  rcases runBy_stop walks_plainStep h with h | ⟨a, ha, hstop⟩
  · exact .inl ((baseRequirements_stop h).imp fun _ h => h.1)
  · exact ha.plainStep_stop (Nat.lt_succ_self _) hstop

end Solver

/-! ## The same end -/

/-- Searches with the same decisions, up to what else could be chosen and what was blamed, have
the same lock. -/
theorem Solution.lock_eq_of_bare {search search' : Search} {solution solution' : Solution}
    (h : Solution.ofSearch problem options search = .ok solution)
    (h' : Solution.ofSearch problem options search' = .ok solution')
    (hbare : search'.chosen.bare = search.chosen.bare) : solution'.lock = solution.lock := by
  obtain ⟨lock, hlock, heq, -⟩ := ofSearch_ok h
  obtain ⟨lock', hlock', heq', -⟩ := ofSearch_ok h'
  rw [← PartialSolution.map_lockedProject_bare, hbare,
    PartialSolution.map_lockedProject_bare, hlock] at hlock'
  obtain rfl : lock = lock' := by simpa using hlock'
  rw [heq, heq']

/-- What a solution picks is foreseen, if what it locks is. -/
theorem Solution.foreseen_picks {s : Solver Unit} {search : Search} {solution : Solution}
    (h : Solution.ofSearch problem options search = .ok solution)
    (hforeseen : ∀ entry ∈ solution.lock.projects, s.Foresees u entry.project entry.version) :
    ∀ root project v, search.chosen.picks root = some (project, v) → s.Foresees u project v := by
  intro root project v hpick
  obtain ⟨lock, hlock, heq, -⟩ := ofSearch_ok h
  obtain ⟨sel, hs, rfl, rfl⟩ := PartialSolution.picks_eq_some hpick
  obtain ⟨d, hd, -, hsel⟩ := PartialSolution.selected?_eq_some hs
  rw [hsel]
  refine hforeseen (search.chosen.lockedProject d) ?_
  rw [heq]
  exact ((Lock.ofProjects_ok hlock).2 _).2
    (List.mem_map_of_mem (PartialSolution.mem_of_decision? hd))

/-- A run was stopped from outside: something could not be looked up, or somebody cancelled it. -/
inductive Stop.FromOutside : Stop → Prop
  | lookup (e : SourceFault) : FromOutside (.ofLookup e)
  | cancelled : FromOutside (.fault .cancelled)

/-- Two runs end in the same way: with the same lock, or both without a solution. -/
inductive SameEnd : Except Stop Solution → Except Stop Solution → Prop
  | solved {a b : Solution} : a.lock = b.lock → SameEnd (.ok a) (.ok b)
  | unsolvable {root root' : String} {conflicts conflicts' : List Conflict} :
      SameEnd (.error (.fault (.unsolvable root conflicts)))
        (.error (.fault (.unsolvable root' conflicts')))

/-- Jumping back over decisions that are not to blame, and passing over versions that are known to
fail, loses nothing: a problem is solved as by the plain search, unless a run is stopped from
outside. That holds with one place for each project, with requirements that the decisions to blame
explain, and if the versions that the plain search locks are foreseen. -/
theorem Provider.solve_sameEnd_plain {p : Provider} {problem : Problem} {options : SolveOptions}
    (hsource : p.world.OneSource problem)
    (hdirect : ∀ search, (p.world.solver problem options p.world.limits).Visits search →
      search.chosen.Direct p.world problem options)
    (hforeseen : ∀ solution,
      (p.world.solver problem options p.world.limits).plainRun.outcome = .ok solution →
        ∀ entry ∈ solution.lock.projects,
          (p.world.solver problem options p.world.limits).Foresees p.world entry.project
            entry.version)
    (hsolve : ∀ e, (p.solve problem options).1 = .error e → ¬ e.FromOutside)
    (hplain : ∀ e, (p.world.solver problem options p.world.limits).plainRun.outcome = .error e →
      ¬ e.FromOutside) :
    SameEnd (p.solve problem options).1
      (p.world.solver problem options p.world.limits).plainRun.outcome := by
  rcases p.solve_eq problem options with hcancelled | hrun
  · exact absurd .cancelled (hsolve _ hcancelled)
  rw [hrun] at hsolve ⊢
  cases hs : (p.world.solver problem options p.world.limits).run.outcome with
  | ok solution =>
    obtain ⟨search, hvisits, hw, hsol⟩ := Solver.run_ok hs
    have hreached := hvisits.grounded.reached
    cases ht : (p.world.solver problem options p.world.limits).plainRun.outcome with
    | ok solution' =>
      obtain ⟨search', hplainVisits, hw', hsol'⟩ := Solver.runBy_ok Solver.walks_plainStep ht
      have hreached' := (hplainVisits.grounded Solver.walks_plainStep).reached
      have hc := (PartialSolution.sound_of_reached hreached').consistent_picks
        (PartialSolution.complete_of_waiting hw')
      have hfinds := Solver.finds_of_foresees hc hsource
        (Solution.foreseen_picks hsol' (hforeseen _ ht))
      -- each search has stopped short of the other's solution
      have hnot := hvisits.notPast hsource hdirect hreached' hw' hfinds
      have hnot' := hplainVisits.notPast hreached hw
      exact .solved (Solution.lock_eq_of_bare hsol' hsol (hnot'.bare_eq hnot hreached' hreached))
    | error e =>
      rcases Solver.plainRun_stop ht with ⟨e', rfl⟩ | ⟨-, hnone⟩
      · exact absurd (.lookup e') (hplain _ ht)
      -- the plain search would have found what the solver has
      · exact absurd hw (hnone _ hreached)
  | error e =>
    rcases Solver.run_stop hs with ⟨e', rfl⟩ | ⟨root, conflicts, rfl⟩
    · exact absurd (.lookup e') (hsolve _ hs)
    cases ht : (p.world.solver problem options p.world.limits).plainRun.outcome with
    | ok solution' =>
      obtain ⟨search', hplainVisits, hw', hsol'⟩ := Solver.runBy_ok Solver.walks_plainStep ht
      have hreached' := (hplainVisits.grounded Solver.walks_plainStep).reached
      have hc := (PartialSolution.sound_of_reached hreached').consistent_picks
        (PartialSolution.complete_of_waiting hw')
      exact absurd hc (Solver.not_consistent_of_unsolvable hs hsource hdirect
        (Solution.foreseen_picks hsol' (hforeseen _ ht)))
    | error e =>
      rcases Solver.plainRun_stop ht with ⟨e', rfl⟩ | ⟨⟨root', conflicts', rfl⟩, -⟩
      · exact absurd (.lookup e') (hplain _ ht)
      · exact .unsolvable

/-- A universe with a library that has moved on, and a tool that wants the head of its main
branch. -/
def Universe.withRenewed : Universe :=
  let tool (label : Label) (revision : Revision) : Snapshot :=
    ((Snapshot.bare label revision).withPackage "." (.ofList ["example.com/lib"])).withTerms
      "example.com/lib" ⟨none, .branch "main"⟩
  (Universe.empty.register "example.com/lib"
    [Snapshot.bare (.branch "main" true) ⟨"b1"⟩, Snapshot.bare .commit ⟨"b0"⟩]).register
    "example.com/tool" [tool (.tag "v1.0.0") ⟨"a1"⟩, tool .commit ⟨"a0"⟩]

/-- A problem that imports the library and the tool, and has locked both at an earlier revision. -/
def Problem.holdingBack : Problem :=
  { (Problem.new "example.com/app" .empty).withImports
      (.ofList ["example.com/lib", "example.com/tool"]) with
    lock := some ⟨[⟨⟨"example.com/lib", none⟩, .revision ⟨"b0"⟩, .empty⟩,
      ⟨⟨"example.com/tool", none⟩, .revision ⟨"a0"⟩, .empty⟩], none⟩ }

/-- The solver of that problem. -/
def Solver.letGo : Solver Unit :=
  Universe.withRenewed.solver .holdingBack .keep Universe.withRenewed.limits

/-- The library at the head of its branch, and the tool as it was. -/
def Universe.renewed : List (Project × Version) :=
  [(⟨"example.com/lib", none⟩, .bound ⟨.branch "main" true, ⟨"b1"⟩⟩),
    (⟨"example.com/tool", none⟩, .revision ⟨"a0"⟩)]

/-- The library is let go, by a solver and by the plain search, when they go back to it. -/
theorem Solver.searchBy_letGo (step : Search → Run Unit Progress)
    (hstep : step ∈ [letGo.step, letGo.plainStep]) :
    ∃ search, (letGo.searchBy step).outcome = .ok search ∧ search.backtracks = 1 ∧
      search.chosen.decisions.map (fun d => (d.frame.project, d.version)) = Universe.renewed := by
  have hsummary : (letGo.searchBy step).outcome.toOption.map (fun search => (search.backtracks,
      search.chosen.decisions.map fun d => (d.frame.project, d.version))) =
        some (1, Universe.renewed) := by
    revert step
    simp only [List.forall_mem_cons]
    refine ⟨?_, ?_, by simp⟩
    · decide +kernel
    · decide +kernel
  cases h : (letGo.searchBy step).outcome with
  | error e => simp [h, Except.toOption] at hsummary
  | ok search => exact ⟨search, rfl, by simpa [h, Except.toOption] using hsummary⟩

theorem Solver.exists_runBy_letGo (step : Search → Run Unit Progress)
    (hstep : step ∈ [letGo.step, letGo.plainStep]) :
    ∃ solution, (letGo.runBy step).outcome = .ok solution := by
  obtain ⟨search, hsearch, -, hdecided⟩ := searchBy_letGo step hstep
  refine exists_runBy_ok hsearch ?_
  have hroots : search.chosen.decisions.map Decision.root =
      Universe.renewed.map fun x => x.1.root := by
    rw [← hdecided, List.map_map]
    rfl
  rw [hroots]
  decide

/-- The versions that the plain search locks are foreseen. -/
theorem Solver.foresees_letGo {solution : Solution} (h : letGo.plainRun.outcome = .ok solution) :
    ∀ entry ∈ solution.lock.projects,
      letGo.Foresees .withRenewed entry.project entry.version := by
  intro entry hentry
  obtain ⟨search, hsearch, hsol⟩ := exists_searchBy_of_runBy_ok h
  obtain ⟨search', hsearch', -, hdecided⟩ := searchBy_letGo letGo.plainStep (by simp)
  obtain rfl : search = search' := Except.ok.inj (hsearch.symm.trans hsearch')
  obtain ⟨lock, hlock, heq, -⟩ := Solution.ofSearch_ok hsol
  rw [heq] at hentry
  obtain ⟨d, hd, rfl⟩ := List.mem_map.1 (((Lock.ofProjects_ok hlock).2 _).1 hentry)
  have hmem : (d.frame.project, d.version) ∈ Universe.renewed := by
    rw [← hdecided]
    exact List.mem_map.2 ⟨d, hd, rfl⟩
  simp only [Universe.renewed, List.mem_cons, Prod.mk.injEq, List.not_mem_nil, or_false] at hmem
  show letGo.Foresees .withRenewed d.frame.project d.version
  rcases hmem with ⟨hproject, hversion⟩ | ⟨hproject, hversion⟩
  · rw [hproject, hversion]
    exact .listed ⟨[⟨.branch "main" true, ⟨"b1"⟩⟩], by rfl, _, List.mem_singleton.2 rfl, rfl⟩
  · rw [hproject, hversion]
    exact @Foresees.locked _ letGo _ _ ⟨⟨"example.com/tool", none⟩, .revision ⟨"a0"⟩,
      .empty⟩ rfl rfl rfl ⟨⟨"a0"⟩, rfl, rfl⟩ rfl rfl

/-- A solver and the plain search end in the same way when they let the library go. -/
theorem Provider.solve_sameEnd_plain_of_renewed :
    (∃ solution, ((Provider.new .withRenewed).solve .holdingBack .keep).1 = .ok solution) ∧
      SameEnd ((Provider.new .withRenewed).solve .holdingBack .keep).1
        Solver.letGo.plainRun.outcome := by
  have hrun : ((Provider.new .withRenewed).solve .holdingBack .keep).1 =
      (Solver.letGo.runBy Solver.letGo.step).outcome := by
    rw [← Solver.run_eq_runBy]
    exact solve_eq_of_calm rfl rfl _ _
  obtain ⟨solution, hsol⟩ := Solver.exists_runBy_letGo Solver.letGo.step (by simp)
  obtain ⟨solution', hsol'⟩ := Solver.exists_runBy_letGo Solver.letGo.plainStep (by simp)
  have hsource : Universe.withRenewed.OneSource .holdingBack :=
    Universe.oneSource_of_overrides (by decide) (by decide)
  have hchecks : Solver.letGo.checksRun
      (fun search => search.chosen.Direct .withRenewed .holdingBack .keep) 20 = true := by
    decide +kernel
  have hdirect : ∀ search, Solver.letGo.Visits search →
      search.chosen.Direct .withRenewed .holdingBack .keep := fun search hvisits =>
    of_decide_eq_true (hvisits.of_checksRun hchecks)
  refine ⟨⟨solution, hrun.trans hsol⟩, solve_sameEnd_plain hsource hdirect
    (fun _ h => Solver.foresees_letGo h) (fun e he => ?_) (fun e he => ?_)⟩
  · simp [hrun, hsol] at he
  · exact absurd (he.symm.trans hsol') (by simp)

end Depsolve
