import Depsolve.Proofs.Solve.Completeness
import Depsolve.Proofs.Solve.Course
import Depsolve.Proofs.Solve.Recurrence

/-!
# Versions that are passed over

A version that a search passes over as known to fail was tried before
(`Provider.exists_rejects_of_mem_memo`) and failed because of decisions that are made now as well.
So it fails now too, if the places of projects are the same as then: what is remembered of a failure
tells versions, and not places (`Provider.attempt_not_accepted_of_recalled`).
-/

namespace Depsolve

variable {u : Universe} {problem : Problem} {options : SolveOptions} {limits : Limits}

/-! ## Candidates that failed before -/

namespace PartialSolution

variable {p q : PartialSolution} {f : Frame} {v : Version} {left : List Version}

/-- What is remembered of a version that has failed beside some decisions. -/
def nogood (p : PartialSolution) (f : Frame) (v : Version) (failure : Failure) : Nogood :=
  ⟨f.project.root, v, packagesOf (p.requirementsOn f.project.root),
    p.assignment (failure.culprits.filter (· < p.size))⟩

/-- What is selected with the version of a trial is a repetition of it, if its place has not
changed. -/
theorem Sound.repeats_trial (hp : p.Sound u problem)
    (ho : (u.solver problem options limits).Opens p f.project left) (hq : q.Sound u problem)
    (hplaced : (p.trial f v).chosen.PlacedAs u problem q.requirements) {root : String}
    {sel sel' : Selected} (hs : (p.trial f v).chosen.selected? root = some sel)
    (hs' : q.selected? root = some sel') (hsame : sel'.version.same sel.version = true) :
    q.Repeats sel := by
  obtain ⟨r, hr, -, hproject⟩ := hp.required_of_push ho hs
  obtain ⟨r', hr', -, hproject'⟩ := hq.required_of_selected hs'
  have hroot : r'.project.root = r.project.root := by
    rw [hproject, hproject', selected?_root hs, selected?_root hs']
  have hlocation := hplaced.required r (mem_requirements_push hr) r' hr' hroot
  rw [hproject, hproject'] at hlocation
  exact ⟨sel', by rw [selected?_root hs]; exact hs', hlocation, hsame⟩

/-- If the places of what is decided on have not changed with a version on trial, those of its
trial have not. -/
theorem Sound.placedAs_trial (hp : p.Sound u problem)
    (ho : (u.solver problem options limits).Opens p f.project left)
    (h : (p.trial f v).chosen.PlacedAs u problem q.requirements) :
    (p.trial f v).PlacedAs u problem q.requirements := by
  refine ⟨h, fun root sel hs => ?_, fun r hr => nomatch hr⟩
  obtain ⟨r, hr, -, hproject⟩ := hp.required_of_push ho hs
  rw [← hproject]
  exact h.required r (mem_requirements_push hr)

end PartialSolution

section Attempt

variable {p q : PartialSolution} {f g : Frame} {v w : Version} {left : List Version}

/-- A version that failed is not accepted beside the versions that are to blame, where the same
packages are required of it and projects have the same places. -/
theorem Solver.attempt_not_accepts (hreached : (u.solver problem options limits).Reached p)
    (ho : (u.solver problem options limits).Opens p f.project left) {failure : Failure}
    (hfail : ((u.solver problem options limits).attempt p f w).outcome = .ok (.error failure))
    (hreached' : (u.solver problem options limits).Reached q)
    (ho' : (u.solver problem options limits).Opens q g.project (v :: g.candidates))
    (hrecurs : (p.nogood f w failure).Recurs g.project.root v
      (packagesOf (q.requirementsOn g.project.root)) q.version?) {added : List Requirement}
    (hplaced : (p.push ⟨f, w, []⟩).PlacedAs u problem (q.push ⟨g, v, added⟩).requirements) :
    ((u.solver problem options limits).attempt q g v).outcome ≠ .ok (.ok added) := by
  intro haccept
  obtain ⟨hroot, hsame, hpackages, hselected⟩ := hrecurs
  have hroot : f.project.root = g.project.root := hroot
  have hp := PartialSolution.sound_of_reached hreached
  have hq := (PartialSolution.sound_of_reached hreached').push ho' haccept
  have hrepeats : ∀ {root : String} {sel sel' : Selected},
      (p.trial f w).chosen.selected? root = some sel →
      (q.push ⟨g, v, added⟩).selected? root = some sel' → sel'.version.same sel.version = true →
        (q.push ⟨g, v, added⟩).Repeats sel := hp.repeats_trial ho hq hplaced
  -- the version itself is selected, and so are those to blame
  have hnext : (q.push ⟨g, v, added⟩).Repeats (p.next f w) := by
    have hs : (q.push ⟨g, v, added⟩).selected? f.project.root = some (q.next g v) := by
      rw [hroot]
      exact PartialSolution.selected?_push_self (d := ⟨g, v, added⟩) ho'.selected?
    exact hrepeats (PartialSolution.trial_selected?_next ho.selected?) hs
      (Version.same_comm _ _ ▸ hsame)
  have hrequired : Task.RequiredIn problem (q.push ⟨g, v, added⟩)
      (.expand (p.next f w) (packagesOf (p.requirementsOn f.project.root)) .empty) := by
    intro x hx
    have hx : x ∈ packagesOf (q.requirementsOn g.project.root) := hpackages ▸ hx
    obtain ⟨r, hr, hx⟩ := mem_packagesOf.1 hx
    obtain ⟨hr, hroot'⟩ := PartialSolution.mem_requirementsOn.1 hr
    exact PartialSolution.mem_packagesOf_of_mem (PartialSolution.mem_requirements_push hr)
      (hroot'.trans hroot.symm) hx
  have ht : (p.trial f w).PlacedAs u problem (q.push ⟨g, v, added⟩).requirements :=
    hp.placedAs_trial ho hplaced
  refine (attempt_fails hfail).not_repeated hq
    (attempt_fits ho.selected?) hnext hrequired trivial ht rfl fun root sel hs hi => ?_
  by_cases hself : f.project.root = root
  · subst hself
    rw [PartialSolution.trial_selected?_next ho.selected?] at hs
    obtain rfl := Option.some.inj hs
    exact hnext
  · have hs₀ : p.selected? root = some sel := by
      rw [← hs, PartialSolution.trial]
      exact (PartialSolution.selected?_push_of_ne (d := ⟨f, w, []⟩) hself).symm
    have hi' : sel.index ∈ failure.culprits.filter (· < p.size) :=
      SortedSet.mem_filter.2 ⟨hi, decide_eq_true (PartialSolution.selected?_lt hs₀)⟩
    obtain ⟨w', hw', hsame'⟩ :=
      hselected root sel.version (SortedMap.get?_eq_some_iff.2 (hp.mem_assignment hs₀ hi'))
    rw [PartialSolution.version?_eq, Option.map_eq_some_iff] at hw'
    obtain ⟨sel', hs', rfl⟩ := hw'
    exact hrepeats hs (PartialSolution.selected?_push_of_some hs') hsame'

/-- With one place for each project, places do not change. -/
theorem PartialSolution.PlacedAs.of_oneSource (hsource : u.OneSource problem)
    (hreached : (u.solver problem options limits).Reached p)
    (hreached' : (u.solver problem options limits).Reached q) :
    (p.push ⟨f, w, []⟩).PlacedAs u problem q.requirements := by
  have hhome := PartialSolution.atHome_of_reached hsource hreached
  have hhome' := PartialSolution.atHome_of_reached hsource hreached'
  have hplaced : ∀ project : Project, project.AtHome problem → project.PlacedAs q.requirements := by
    intro project hproject r hr hroot
    have hlocation : r.project.location = problem.home r.project.root := hhome' r hr
    rw [hlocation, hroot]
    exact hproject.symm
  refine ⟨fun r hr => hplaced _ (hhome r ?_), fun root sel hs project hwants => hplaced _ ?_⟩
  · rwa [PartialSolution.requirements_push, List.append_nil] at hr
  · obtain ⟨manifest, package, path, hm, -, -, -, hterms⟩ := hwants
    have hlocation := hsource sel.project sel.version manifest hm project.root
    rwa [← hterms] at hlocation

end Attempt

/-! ## What is remembered -/

/-- A search tries a version, and it fails. -/
structure Solver.Rejects (s : Solver Unit) (search : Search) (f : Frame) (v : Version)
    (failure : Failure) : Prop where
  trying : ∃ g left, search.phase = .trying g ∧ g.candidates = v :: left ∧ f = g.leaving left
  failed : (s.attempt search.chosen f v).outcome = .ok (.error failure)

/-- What is remembered after a step was remembered before, or is of the version that the
step has tried. -/
theorem Solver.Steps.mem_memo {s : Solver Unit} {search next : Search} {res : Except Stop Progress}
    (h : s.Steps search res) (hres : res = .ok (.ongoing next)) {n : Nogood}
    (hn : n ∈ next.memo.nogoods) :
    n ∈ search.memo.nogoods ∨ ∃ f v failure, s.Rejects search f v failure ∧
      n = search.chosen.nogood f v failure := by
  cases h with
  | unanswered => simp at hres
  | complete => simp at hres
  | halt => simp at hres
  | select =>
    obtain rfl : _ = next := by simpa using hres
    exact .inl hn
  | stuck =>
    obtain ⟨_, _, _, _, _, _, _, hmemo⟩ := Search.backjump_ok (Progress.ofJump_eq_ongoing hres)
    exact .inl (hmemo ▸ hn)
  | spent =>
    obtain ⟨_, _, _, _, _, _, _, hmemo⟩ := Search.backjump_ok (Progress.ofJump_eq_ongoing hres)
    exact .inl (hmemo ▸ hn)
  | prune hphase hcand hconsult =>
    obtain rfl : _ = next := by simpa using hres
    exact .inl (FailureMemo.nogoods_consult hconsult ▸ hn)
  | accept hphase hcand hconsult =>
    obtain rfl : _ = next := by simpa using hres
    exact .inl (FailureMemo.nogoods_consult hconsult ▸ hn)
  | @reject f v left memo failure hphase hcand hconsult ha =>
    obtain rfl : _ = next := by simpa using hres
    rcases FailureMemo.mem_record hn with hn | rfl
    · exact .inl (FailureMemo.nogoods_consult hconsult ▸ hn)
    · exact .inr ⟨f.leaving left, v, failure, ⟨⟨f, left, hphase, hcand, rfl⟩, ha⟩, rfl⟩

namespace Provider

variable {p : Provider} {n : Nat} {search : Search}

/-- A failure that is remembered is one of an earlier step. -/
theorem exists_rejects_of_mem_memo (h : p.searchAt problem options n = some search) {g : Nogood}
    (hg : g ∈ search.memo.nogoods) : ∃ m < n, ∃ earlier f v failure,
      p.searchAt problem options m = some earlier ∧
        (p.world.solver problem options p.world.limits).Rejects earlier f v failure ∧
          g = earlier.chosen.nogood f v failure := by
  induction n generalizing search with
  | zero =>
    obtain ⟨base, rfl⟩ := searchAt_zero h
    exact nomatch hg
  | succ n ih =>
    obtain ⟨before, hbefore, hstep⟩ := searchAt_succ h
    rcases (Solver.steps p.world problem options p.world.limits before).mem_memo hstep hg with
      hg | ⟨f, v, failure, hrejects, rfl⟩
    · obtain ⟨m, hm, hearlier⟩ := ih hbefore hg
      exact ⟨m, Nat.lt_succ_of_lt hm, hearlier⟩
    · exact ⟨n, Nat.lt_succ_self n, before, f, v, failure, hbefore, hrejects, rfl⟩

end Provider

/-- The version that a search passes over next, as known to fail under its decisions, with the frame
that is left then. -/
def Search.recalled? (s : Search) : Option (Frame × Version) :=
  match s.phase with
  | .deciding => none
  | .trying f =>
    match f.candidates with
    | [] => none
    | v :: left =>
      if (s.consult (f.leaving left) v).1.isSome then some (f.leaving left, v) else none

theorem Search.recalled?_eq_some {s : Search} {f : Frame} {v : Version}
    (h : s.recalled? = some (f, v)) :
    ∃ g left, s.phase = .trying g ∧ g.candidates = v :: left ∧ f = g.leaving left ∧
      (s.consult f v).1.isSome = true := by
  unfold recalled? at h
  split at h
  · exact nomatch h
  · rename_i g hphase
    split at h
    · exact nomatch h
    · rename_i w left hcand
      split at h
      · rename_i hsome
        obtain ⟨rfl, rfl⟩ := Prod.mk.inj (Option.some.inj h)
        exact ⟨g, left, hphase, hcand, rfl, hsome⟩
      · exact nomatch h

/-- What becomes of a version that is tried in a state of a search. -/
def Solver.attemptIn {σ : Type} (s : Solver σ) (source : σ) (search : Search) (f : Frame)
    (v : Version) : Except Stop (Except Failure (List Requirement)) :=
  ((s.attempt search.chosen f v).run.run.run source).1

namespace Provider

variable {p : Provider} {n : Nat} {search : Search} {session : Session} {f : Frame} {v : Version}

/-- A version that is accepted in a session is accepted over the plain universe. -/
theorem AtVisited.outcome_attempt (h : p.AtVisited problem options search session)
    (hrecalled : search.recalled? = some (f, v)) {added : List Requirement}
    (ha : (p.solver problem options).attemptIn session search f v = .ok (.ok added)) :
    ((p.world.solver problem options p.world.limits).attempt search.chosen f v).outcome =
      .ok (.ok added) := by
  obtain ⟨g, left, hphase, hcand, rfl, -⟩ := Search.recalled?_eq_some hrecalled
  have hpinned := h.pinned.left g hphase
  rw [hcand] at hpinned
  obtain ⟨hv, hrest⟩ := List.forall_mem_cons.1 hpinned
  have hleft : ∀ w ∈ (g.leaving left).candidates, w.Pinned := hrest
  have hmirrors :=
    Solver.attempt_mirrors (Session.source_mirrors p.world problem False) options p.world.limits
    h.pinned.chosen hleft hv
  rcases hmirrors session () h.serves with ⟨-, hcancelled⟩ | ⟨halike, -⟩
  · exact nomatch hcancelled.symm.trans ha
  · exact (halike.mono fun _ _ h => h.eq).eq.symm.trans ha

/-- A version that is passed over as known to fail was tried earlier, with the same packages
required of it, and failed because of versions that are selected now as well. It would not be
accepted now if projects have the same places as then; in particular if there is one place
for each project. -/
theorem attempt_not_accepted_of_recalled
    (hstate : (p.solver problem options).after (.start p) n = some (search, session))
    (hrecalled : search.recalled? = some (f, v)) :
    (∃ m < n, ∃ earlier f₀ w failure, p.searchAt problem options m = some earlier ∧
      (p.world.solver problem options p.world.limits).Rejects earlier f₀ w failure ∧
      (earlier.chosen.nogood f₀ w failure).Recurs f.project.root v
        (Depsolve.packagesOf (search.chosen.requirementsOn f.project.root)) search.chosen.version? ∧
      ∀ added, (earlier.chosen.push ⟨f₀, w, []⟩).PlacedAs p.world problem
          (search.chosen.push ⟨f, v, added⟩).requirements →
        (p.solver problem options).attemptIn session search f v ≠ .ok (.ok added)) ∧
    (p.world.OneSource problem → ∀ added,
      (p.solver problem options).attemptIn session search f v ≠ .ok (.ok added)) := by
  have hvisited := atVisited_of_after hstate
  have hgrounded := hvisited.visits.grounded
  have hsearch : p.searchAt problem options n = some search := by
    rw [searchAt, hstate]
    rfl
  obtain ⟨g, left, hphase, hcand, rfl, hfound⟩ := Search.recalled?_eq_some hrecalled
  have ho := hgrounded.opens g hphase
  rw [hcand] at ho
  -- the failure that is found was remembered by an earlier step
  obtain ⟨k, hk, hrecurs⟩ := FailureMemo.isSome_consult_iff.1 hfound
  obtain ⟨m, hm, earlier, f₀, w, failure, hearlier, hrejects, rfl⟩ :=
    exists_rejects_of_mem_memo hsearch hk
  obtain ⟨⟨g₀, left₀, hphase₀, hcand₀, rfl⟩, hfail⟩ := hrejects
  have hgrounded₀ := (searchAt_visits hearlier).grounded
  have hplaced : ∀ added, (earlier.chosen.push ⟨g₀.leaving left₀, w, []⟩).PlacedAs p.world problem
      (search.chosen.push ⟨g.leaving left, v, added⟩).requirements →
        (p.solver problem options).attemptIn session search (g.leaving left) v ≠
        .ok (.ok added) := by
    intro added hplaced ha
    exact Solver.attempt_not_accepts (f := g₀.leaving left₀)
      (g := g.leaving left) hgrounded₀.reached
      (hgrounded₀.opens g₀ hphase₀) hfail hgrounded.reached ho hrecurs hplaced
        (hvisited.outcome_attempt hrecalled ha)
  refine ⟨⟨m, hm, earlier, _, w, failure, hearlier, ⟨⟨g₀, left₀, hphase₀, hcand₀, rfl⟩, hfail⟩,
    hrecurs, hplaced⟩, fun hsource added ha => hplaced added ?_ ha⟩
  have haccept := hvisited.outcome_attempt hrecalled ha
  exact .of_oneSource hsource hgrounded₀.reached
    (.push (f := g.leaving left) hgrounded.reached ho haccept)

/-- A check of a version that is passed over can be evaluated. -/
theorem exists_recalled_of_any (s : Solver Session) (init : Session) (n : Nat)
    (check : Search → Session → Frame → Version → Bool)
    (h : ((s.after init n).any fun (search, session) =>
      search.recalled?.any fun (f, v) => check search session f v) = true) :
    ∃ search session f v, s.after init n = some (search, session) ∧ search.recalled? = some (f, v) ∧
      check search session f v = true := by
  obtain ⟨⟨search, session⟩, hstate, h⟩ := (Option.any_eq_true _ _).1 h
  obtain ⟨⟨f, v⟩, hrecalled, hcheck⟩ := (Option.any_eq_true _ _).1 h
  exact ⟨search, session, f, v, hstate, hrecalled, hcheck⟩

end Provider

/-- The state of a user of a project. -/
def Snapshot.using (label : Label) (revision : Revision) (target : String)
    (terms : Terms) : Snapshot :=
  ((Snapshot.bare label revision).withPackage "." (.ofList [target])).withTerms target terms

/-- A universe with a base that has a newer release, and a tool that wants another branch of the
library than there is. The release of the tool wants the release of the base. -/
def Universe.withReleasedBase : Universe :=
  ((Universe.empty.register "example.com/base"
    [Snapshot.bare (.tag "v1.0.0") ⟨"a1"⟩, Snapshot.bare .commit ⟨"a0"⟩]).register
    "example.com/lib" [Snapshot.bare (.tag "v1.0.0") ⟨"b1"⟩]).register
    "example.com/tool" [.using (.tag "v1.0.0") ⟨"c1"⟩ "example.com/base" ⟨none, .revision ⟨"a1"⟩⟩,
      .using .commit ⟨"c0"⟩ "example.com/lib" ⟨none, .branch "next"⟩]

/-- A problem that has locked the base and the tool before their releases. -/
def Problem.withLockedBase (imports : List String) : Problem :=
  { (Problem.new "example.com/app" .empty).withImports (.ofList imports) with
    lock := some ⟨[⟨⟨"example.com/base", none⟩, .revision ⟨"a0"⟩, .empty⟩,
      ⟨⟨"example.com/tool", none⟩, .revision ⟨"c0"⟩, .empty⟩], none⟩ }

/-- A problem that imports the base, the library and the tool. -/
def Problem.importingAll : Problem :=
  .withLockedBase ["example.com/base", "example.com/lib", "example.com/tool"]

/-- The locked tool fails because of the library, and is passed over once the base is at its
release. -/
theorem Provider.attempt_not_accepted_of_releasedBase : ∃ search session f v,
    ((Provider.new .withReleasedBase).solver .importingAll .keep).after
      (.start (.new .withReleasedBase)) 10 =
      some (search, session) ∧ search.recalled? = some (f, v) ∧
      Universe.withReleasedBase.OneSource .importingAll ∧
      ∀ added, ((Provider.new .withReleasedBase).solver .importingAll .keep).attemptIn
        session search f v ≠ .ok (.ok added) := by
  obtain ⟨search, session, f, v, hstate, hrecalled, -⟩ := exists_recalled_of_any
    ((Provider.new .withReleasedBase).solver .importingAll .keep)
    (.start (.new .withReleasedBase)) 10 (fun _ _ _ _ => true) (by decide +kernel)
  have hsource : Universe.withReleasedBase.OneSource .importingAll :=
    Universe.oneSource_of_overrides (by decide) (by decide)
  exact ⟨search, session, f, v, hstate, hrecalled, hsource,
    (attempt_not_accepted_of_recalled hstate hrecalled).2 hsource⟩

/-- A universe with a library and a fork of it. A tool imports the library. So does the base, which
wanted it from the fork before its release. -/
def Universe.withForkedLibrary : Universe :=
  (((Universe.empty.register "example.com/base"
    [.using (.tag "v1.0.0") ⟨"a1"⟩ "example.com/lib" ⟨none, .any⟩,
      .using .commit ⟨"a0"⟩ "example.com/lib" ⟨some "example.com/fork", .any⟩]).register
    "example.com/lib" [Snapshot.bare (.tag "v1.0.0") ⟨"b1"⟩]).register
    "example.com/fork" [Snapshot.bare (.tag "v1.0.0") ⟨"b1"⟩]).register
    "example.com/tool" [.using (.tag "v1.0.0") ⟨"c1"⟩ "example.com/lib" ⟨none, .any⟩,
      .using .commit ⟨"c0"⟩ "example.com/lib" ⟨none, .any⟩]

/-- A problem that imports the base and the tool. -/
def Problem.importingBase : Problem :=
  .withLockedBase ["example.com/base", "example.com/tool"]

/-- Whether an attempt has ended with a version that is accepted. -/
def Attempt.isAccepted : Except Stop (Except Failure (List Requirement)) → Bool
  | .ok (.ok _) => true
  | _ => false

theorem Attempt.exists_of_isAccepted {result : Except Stop (Except Failure (List Requirement))}
    (h : isAccepted result = true) : ∃ added, result = .ok (.ok added) := by
  unfold isAccepted at h
  split at h
  · exact ⟨_, rfl⟩
  · exact nomatch h

/-- The locked tool fails beside the fork of the library. It is passed over beside the library
itself, where it would be accepted. -/
theorem Provider.attempt_accepted_of_forkedLibrary : ∃ search session f v added,
    ((Provider.new .withForkedLibrary).solver .importingBase .keep).after
      (.start (.new .withForkedLibrary)) 13 =
      some (search, session) ∧ search.recalled? = some (f, v) ∧
      ((Provider.new .withForkedLibrary).solver .importingBase .keep).attemptIn session search f v =
        .ok (.ok added) := by
  obtain ⟨search, session, f, v, hstate, hrecalled, haccepted⟩ := exists_recalled_of_any
    ((Provider.new .withForkedLibrary).solver .importingBase .keep)
    (.start (.new .withForkedLibrary)) 13 (fun search session f v => Attempt.isAccepted
      (((Provider.new .withForkedLibrary).solver .importingBase .keep).attemptIn
        session search f v))
    (by decide +kernel)
  obtain ⟨added, hadded⟩ := Attempt.exists_of_isAccepted haccepted
  exact ⟨search, session, f, v, added, hstate, hrecalled, hadded⟩

end Depsolve
