import Mathlib.Data.List.Perm.Subperm
import Depsolve.Proofs.Solve.Decisions
import Depsolve.Proofs.Solve.Outcome

/-!
# What candidates are

`Universe.Offers` says what a list of candidates has: versions that are there and that all
requirements accept, every listed version that they accept or one that stands for it, the revisions
that they name, and the locked version at the front. `Solver.candidates_offers` proves it of the
candidates of a solver.

`Solver.choose` gives the candidates of a project that waits, unless none waits or one has none.
-/

namespace Depsolve

variable {u : Universe} {problem : Problem} {options : SolveOptions} {limits : Limits}
  {project : Project} {requirements : List Requirement}

/-- A version is one of the named versions of a project. -/
def Universe.Lists (u : Universe) (project : Project) (v : Version) : Prop :=
  ∃ versions, u.versions project = .ok versions ∧ ∃ b ∈ versions, v = .bound b

/-- A version has a revision that is there. -/
def Universe.Has (u : Universe) (project : Project) (v : Version) : Prop :=
  ∃ r, v.revision? = some r ∧ u.hasRevision project r = .ok true

theorem Universe.Lists.has {v : Version} (h : u.Lists project v) : u.Has project v := by
  obtain ⟨versions, hv, b, hb, rfl⟩ := h
  exact ⟨b.revision, rfl, u.hasRevision_of_mem_versions hv hb⟩

/-- A version with a revision that is there means a published state. -/
theorem Universe.Has.exists_snapshot {v : Version} (h : u.Has project v) :
    ∃ s, u.snapshot project v = .ok s := by
  obtain ⟨r, hr, hthere⟩ := h
  obtain ⟨snapshots, hs, hany⟩ := hasRevision_eq_ok_iff.1 hthere
  rw [List.any_eq_true] at hany
  obtain ⟨s, hmem, hrevision⟩ := hany
  have hanswers : s.answers v = true :=
    (Snapshot.answers_iff_of_revision hr).2 (of_decide_eq_true hrevision)
  have hfound : (snapshots.find? (·.answers v)).isSome = true :=
    List.find?_isSome.2 ⟨s, hmem, hanswers⟩
  obtain ⟨t, ht⟩ := Option.isSome_iff_exists.1 hfound
  exact ⟨t, snapshot_eq_ok_iff.2 ⟨snapshots, hs, ht⟩⟩

theorem Universe.Has.exists_packagesOf {v : Version} (h : u.Has project v) :
    ∃ tree, u.packagesOf project v = .ok tree := by
  obtain ⟨s, hs⟩ := h.exists_snapshot
  exact ⟨s.tree project.root, packagesOf_eq_ok_iff.2 ⟨s, hs, rfl⟩⟩

/-- The locked entry of a project may be preferred. -/
structure Problem.Prefers (problem : Problem) (options : SolveOptions) (project : Project)
    (requirements : List Requirement) (entry : LockedProject) : Prop where
  keepsAll : options.changeAll = false
  keeps : options.toChange.contains project.root = false
  found : ∃ lock, problem.lock = some lock ∧ lock.find? project.root = some entry
  location_eq : entry.project.location = project.location
  admitted : admittedBy requirements entry.version = true

theorem Solver.lockedEntry?_eq_some_iff {s : Solver Unit} {entry : LockedProject} :
    s.lockedEntry? project requirements = some entry ↔
      s.problem.Prefers s.options project requirements entry := by
  unfold lockedEntry?
  by_cases hc : (s.options.changeAll || s.options.toChange.contains project.root) = true
  · rw [if_pos hc]
    refine ⟨by simp, fun h => ?_⟩
    simp [h.keepsAll, h.keeps] at hc
  · rw [if_neg hc]
    simp only [Bool.or_eq_true, not_or, Bool.not_eq_true] at hc
    simp only [Option.filter_eq_some_iff, Option.bind_eq_some_iff, Bool.and_eq_true,
      decide_eq_true_eq]
    exact ⟨fun ⟨hf, hl, ha⟩ => ⟨hc.1, hc.2, hf, hl, ha⟩,
      fun h => ⟨h.found, h.location_eq, h.admitted⟩⟩

/-- What candidates of a project are, under some requirements. -/
structure Universe.Offers (u : Universe) (problem : Problem) (options : SolveOptions)
    (project : Project) (requirements : List Requirement) (candidates : List Version) : Prop where
  admitted : ∀ v ∈ candidates, admittedBy requirements v = true
  present : ∀ v ∈ candidates, u.Has project v
  /-- A candidate is listed, or named by a requirement or by the lock. -/
  origin : ∀ v ∈ candidates, u.Lists project v ∨
    (∃ r, v = .revision r ∧ ∃ q ∈ requirements, q.constraint = .revision r) ∨
      ∃ entry, problem.Prefers options project requirements entry ∧ v = entry.version
  /-- A listed version is offered, if all requirements accept it. -/
  listed : ∀ v, u.Lists project v → admittedBy requirements v = true →
    ∃ w ∈ candidates, w.StandsFor v
  /-- A revision that a requirement names is offered, if it is there and all accept it. -/
  named : ∀ r, (∃ q ∈ requirements, q.constraint = .revision r) →
    u.hasRevision project r = .ok true → admittedBy requirements (.revision r) = true →
      ∃ w ∈ candidates, w.StandsFor (.revision r)
  /-- The locked version is offered first, if it may be preferred and is there. -/
  locked : ∀ entry, problem.Prefers options project requirements entry →
    u.Has project entry.version → candidates.head? = some entry.version
  length_le : candidates.length ≤ u.candidateBound

theorem Version.same_comm (v w : Version) : v.same w = w.same v := by
  simp only [Version.same, eq_comm]

namespace Universe

theorem length_le_snapshotBound {snapshots : List Snapshot}
    (h : u.snapshots project = .ok snapshots) : snapshots.length ≤ u.snapshotBound := by
  have hfold : ∀ (l : List (List Snapshot)) (n : Nat),
      n ≤ l.foldl (fun most x => max most x.length) n ∧
        ∀ x ∈ l, x.length ≤ l.foldl (fun most x => max most x.length) n := by
    intro l
    induction l with
    | nil => simp
    | cons y l ih =>
      intro n
      obtain ⟨h1, h2⟩ := ih (max n y.length)
      rw [List.foldl_cons]
      refine ⟨by omega, List.forall_mem_cons.2 ⟨by omega, h2⟩⟩
  have hmem : snapshots ∈ u.projects.values := by
    unfold Universe.snapshots at h
    split at h
    · simp at h
    · split at h
      · rename_i found hfound
        obtain rfl : found = snapshots := by simpa using h
        cases hl : u.projects.get? project.location with
        | none =>
          rw [hl] at hfound
          exact List.mem_map.2 ⟨_, SortedMap.get?_eq_some_iff.1 hfound, rfl⟩
        | some l =>
          obtain rfl : l = found := by simpa [hl] using hfound
          exact List.mem_map.2 ⟨_, SortedMap.get?_eq_some_iff.1 hl, rfl⟩
      · simp at h
  exact (hfold u.projects.values 0).2 snapshots hmem

end Universe

namespace Solver

theorem ask_versions_outcome :
    (ask ((u.solver problem options limits).source.versions project)).outcome =
      (u.versions project).mapError Stop.ofLookup :=
  Run.outcome_ask_answer _

theorem ask_hasRevision_outcome {r : Revision} :
    (ask ((u.solver problem options limits).source.hasRevision project r)).outcome =
      (u.hasRevision project r).mapError Stop.ofLookup :=
  Run.outcome_ask_answer _

/-! ## Bare revisions -/

/-- One step of the search for bare revisions. -/
def bareStep (s : Solver Unit) (project : Project) (listed : List Version)
    (found : SortedSet String) (r : Revision) : Run Unit (SortedSet String) := do
  if listed.any (·.revision? = some r) || found.contains r.text then return found
  else if ← ask (s.source.hasRevision project r) then return found.insert r.text
  else return found

theorem bareRevisions_eq (s : Solver Unit) (listed : List Version) :
    s.bareRevisions project listed requirements =
      (requirements.filterMap (·.constraint.revision?)).foldlM (s.bareStep project listed) .empty :=
  rfl

/-- A step finds a revision that is there and that no listed version has. -/
theorem bareStep_ok {listed : List Version} {found found' : SortedSet String} {r : Revision}
    (h : ((u.solver problem options limits).bareStep project listed found r).outcome = .ok found')
    (text : String) :
    text ∈ found' ↔ text ∈ found ∨ (⟨text⟩ = r ∧ (∀ w ∈ listed, w.revision? ≠ some ⟨text⟩) ∧
      u.hasRevision project ⟨text⟩ = .ok true) := by
  unfold bareStep at h
  split at h
  -- a revision that is listed or was found before is not asked for
  · rename_i hskip
    obtain rfl : found = found' := by simpa using h
    rw [Bool.or_eq_true, List.any_eq_true, SortedSet.contains_iff_mem] at hskip
    refine ⟨.inl, ?_⟩
    rintro (hf | ⟨rfl, hnot, -⟩)
    · exact hf
    · exact hskip.resolve_left fun ⟨w, hw, hr⟩ => hnot w hw (of_decide_eq_true hr)
  · rename_i hskip
    rw [Bool.or_eq_true, List.any_eq_true, SortedSet.contains_iff_mem, not_or] at hskip
    rw [Run.outcome_bind_eq_ok_iff, ask_hasRevision_outcome] at h
    obtain ⟨b, hb, h⟩ := h
    rw [mapError_eq_ok_iff] at hb
    cases b with
    | true =>
      obtain rfl : found.insert r.text = found' := by simpa using h
      rw [SortedSet.mem_insert]
      constructor
      · rintro (rfl | hf)
        · exact .inr ⟨rfl, fun w hw hr => hskip.1 ⟨w, hw, decide_eq_true hr⟩, hb⟩
        · exact .inl hf
      · rintro (hf | ⟨rfl, -⟩)
        · exact .inr hf
        · exact .inl rfl
    | false =>
      obtain rfl : found = found' := by simpa using h
      refine ⟨.inl, ?_⟩
      rintro (hf | ⟨rfl, -, hhas⟩)
      · exact hf
      · simp [hb] at hhas

/-- The revisions that are found are those of some list that are there and that no listed version
has. -/
theorem foldlM_bareStep_ok {listed : List Version} {revisions : List Revision}
    {found bare : SortedSet String}
    (h : (revisions.foldlM
      ((u.solver problem options limits).bareStep project listed) found).outcome =
      .ok bare) (text : String) :
    text ∈ bare ↔ text ∈ found ∨ (⟨text⟩ ∈ revisions ∧ (∀ w ∈ listed, w.revision? ≠ some ⟨text⟩) ∧
      u.hasRevision project ⟨text⟩ = .ok true) := by
  induction revisions generalizing found with
  | nil =>
    obtain rfl : found = bare := by simpa using h
    simp
  | cons r l ih =>
    rw [List.foldlM_cons, Run.outcome_bind_eq_ok_iff] at h
    obtain ⟨found', hstep, hrest⟩ := h
    rw [ih hrest, bareStep_ok hstep, List.mem_cons, or_assoc, ← or_and_right]

theorem bareRevisions_ok {listed : List Version} {bare : SortedSet String}
    (h : ((u.solver problem options limits).bareRevisions project listed requirements).outcome =
      .ok bare) (text : String) :
    text ∈ bare ↔ (∃ q ∈ requirements, q.constraint = .revision ⟨text⟩) ∧
      (∀ w ∈ listed, w.revision? ≠ some ⟨text⟩) ∧ u.hasRevision project ⟨text⟩ = .ok true := by
  rw [bareRevisions_eq] at h
  rw [foldlM_bareStep_ok h]
  simp only [SortedSet.not_mem_empty, false_or, List.mem_filterMap]
  refine and_congr ⟨?_, ?_⟩ Iff.rfl
  · rintro ⟨q, hq, hr⟩
    refine ⟨q, hq, ?_⟩
    cases hc : q.constraint <;> simp_all [Constraint.revision?]
  · rintro ⟨q, hq, hr⟩
    exact ⟨q, hq, by simp [hr, Constraint.revision?]⟩

theorem bareRevisions_length_le {listed : List Version} {bare : SortedSet String}
    {snapshots : List Snapshot} (hs : u.snapshots project = .ok snapshots)
    (h : ((u.solver problem options limits).bareRevisions project listed requirements).outcome =
      .ok bare) : bare.toList.length ≤ snapshots.length := by
  -- the revisions are distinct, and all of published states
  have hsub : bare.toList ⊆ snapshots.map fun s => s.revision.text := by
    intro text htext
    obtain ⟨-, -, hhas⟩ := (bareRevisions_ok h text).1 htext
    obtain ⟨snapshots', hs', hany⟩ := Universe.hasRevision_eq_ok_iff.1 hhas
    obtain rfl : snapshots = snapshots' := by simpa [hs] using hs'
    obtain ⟨s, hmem, hr⟩ := List.any_eq_true.1 hany
    exact List.mem_map.2 ⟨s, hmem, by rw [of_decide_eq_true hr]⟩
  have hle := (List.subperm_of_subset bare.nodup_toList hsub).length_le
  rwa [List.length_map] at hle

/-! ## Candidates -/

/-- The candidates that are known before the lock is looked at. -/
def viable (versions : List Bound) (bare : SortedSet String) (requirements : List Requirement) :
    List Version :=
  ((Preference.upgrade.sort versions).map Version.bound ++
    bare.toList.map fun text => Version.revision ⟨text⟩).filter (admittedBy requirements)

theorem mem_viable {versions : List Bound} {bare : SortedSet String} {v : Version} :
    v ∈ viable versions bare requirements ↔
      ((∃ b ∈ versions, v = .bound b) ∨ ∃ text ∈ bare, v = .revision ⟨text⟩) ∧
        admittedBy requirements v = true := by
  simp only [viable, Preference.sort, List.mem_filter, List.mem_append, List.mem_map,
    List.mem_mergeSort, SortedSet.mem_toList, eq_comm]

/-- The versions of `viable`, with one of them or a locked one at the front. -/
def preferring (locked : Option Version) (viable : List Version) : List Version :=
  match locked with
  | some v => v :: viable.filter fun w => ! w.same v
  | none => viable

theorem candidates_outcome_eq_ok_iff {candidates : List Version} :
    ((u.solver problem options limits).candidates project requirements).outcome = .ok candidates ↔
      ∃ versions bare locked, u.versions project = .ok versions ∧
        ((u.solver problem options limits).bareRevisions project
          ((Preference.upgrade.sort versions).map Version.bound) requirements).outcome = .ok bare ∧
        ((u.solver problem options limits).lockedVersion? project requirements
          (viable versions bare requirements)).outcome = .ok locked ∧
        candidates = preferring locked (viable versions bare requirements) := by
  unfold Solver.candidates
  simp only [Run.outcome_bind_eq_ok_iff, ask_versions_outcome, mapError_eq_ok_iff]
  constructor
  · rintro ⟨versions, hv, bare, hb, locked, hl, hc⟩
    refine ⟨versions, bare, locked, hv, hb, hl, ?_⟩
    cases locked <;> simpa [preferring, viable, eq_comm] using hc
  · rintro ⟨versions, bare, locked, hv, hb, hl, rfl⟩
    refine ⟨versions, hv, bare, hb, locked, hl, ?_⟩
    cases locked <;> rfl

/-- The locked version that is preferred is that of the lock, or a candidate that means the same. -/
theorem lockedVersion?_ok {v : Version} {candidates : List Version}
    (h : ((u.solver problem options limits).lockedVersion? project requirements
      candidates).outcome = .ok (some v)) :
    v ∈ candidates ∨ (∃ entry, problem.Prefers options project requirements entry ∧
      v = entry.version ∧ u.Has project v) := by
  unfold lockedVersion? at h
  cases he : Solver.lockedEntry? (u.solver problem options limits) project requirements with
  | none => simp [he] at h
  | some entry =>
    simp only [he] at h
    cases hr : entry.version.revision? with
    | none =>
      simp only [hr, Run.outcome_pure, Except.ok.injEq] at h
      exact .inl (List.mem_of_find?_eq_some h)
    | some r =>
      simp only [hr] at h
      rw [Run.outcome_bind_eq_ok_iff, ask_hasRevision_outcome] at h
      obtain ⟨b, hb, h⟩ := h
      cases b with
      | false => simp at h
      | true =>
        obtain rfl : entry.version = v := by simpa using h
        exact .inr ⟨entry, lockedEntry?_eq_some_iff.1 he, rfl, r, hr, mapError_eq_ok_iff.1 hb⟩

theorem lockedVersion?_of_prefers {entry : LockedProject} {candidates : List Version}
    (he : problem.Prefers options project requirements entry) (hh : u.Has project entry.version) :
    ((u.solver problem options limits).lockedVersion? project requirements candidates).outcome =
      .ok (some entry.version) := by
  obtain ⟨r, hr, hh⟩ := hh
  have he' : Solver.lockedEntry? (u.solver problem options limits) project requirements =
      some entry :=
    lockedEntry?_eq_some_iff.2 he
  unfold lockedVersion?
  simp only [he', hr, Run.outcome_bind, ask_hasRevision_outcome, hh]
  rfl

/-- A version stays, unless the version at the front is the same. -/
theorem exists_mem_preferring {locked : Option Version} {versions : List Version} {v : Version}
    (hv : v ∈ versions) (hhas : u.Has project v) :
    ∃ w ∈ preferring locked versions, w.StandsFor v := by
  obtain ⟨r, hr, -⟩ := hhas
  cases locked with
  | none => exact ⟨v, hv, .refl hr⟩
  | some x =>
    by_cases hx : v.same x = true
    · exact ⟨x, List.mem_cons_self, .of_same (Version.same_comm v x ▸ hx) hr⟩
    · exact ⟨v, List.mem_cons_of_mem _ (List.mem_filter.2 ⟨hv, by simpa using hx⟩), .refl hr⟩

theorem length_preferring_le {locked : Option Version} {versions : List Version} :
    (preferring locked versions).length ≤ versions.length + 1 := by
  cases locked with
  | none => exact Nat.le_succ _
  | some x => exact Nat.succ_le_succ (List.length_filter_le ..)

section Found

variable {versions : List Bound} {bare : SortedSet String}

theorem has_of_mem_viable (hv : u.versions project = .ok versions)
    (hb : ((u.solver problem options limits).bareRevisions project
      ((Preference.upgrade.sort versions).map Version.bound) requirements).outcome = .ok bare)
    {v : Version} (h : v ∈ viable versions bare requirements) :
    u.Has project v := by
  rcases (mem_viable.1 h).1 with ⟨b, hmem, rfl⟩ | ⟨text, ht, rfl⟩
  · exact Universe.Lists.has ⟨versions, hv, b, hmem, rfl⟩
  · exact ⟨⟨text⟩, rfl, ((bareRevisions_ok hb text).1 ht).2.2⟩

/-- A candidate is viable, or it is the locked version. -/
theorem mem_viable_or_prefers {locked : Option Version}
    (hl : ((u.solver problem options limits).lockedVersion? project requirements
      (viable versions bare requirements)).outcome = .ok locked) {v : Version}
    (h : v ∈ preferring locked (viable versions bare requirements)) :
    v ∈ viable versions bare requirements ∨
      ∃ entry, problem.Prefers options project requirements entry ∧ v = entry.version ∧
        u.Has project v := by
  cases locked with
  | none => exact .inl h
  | some x =>
    rcases List.mem_cons.1 h with rfl | h
    · exact lockedVersion?_ok hl
    · exact .inl (List.mem_filter.1 h).1

/-- A revision that is asked for and there is viable, if only as that of a listed version. -/
theorem exists_viable_of_named
    (hb : ((u.solver problem options limits).bareRevisions project
      ((Preference.upgrade.sort versions).map Version.bound) requirements).outcome = .ok bare)
    {r : Revision} (hq : ∃ q ∈ requirements, q.constraint = .revision r)
    (hhas : u.hasRevision project r = .ok true)
    (ha : admittedBy requirements (.revision r) = true) :
    ∃ v ∈ viable versions bare requirements, v.StandsFor (.revision r) := by
  by_cases hlisted : ∃ b ∈ versions, b.revision = r
  · obtain ⟨b, hmem, rfl⟩ := hlisted
    have hst : (Version.bound b).StandsFor (.revision b.revision) := .of_bare rfl
    refine ⟨.bound b, mem_viable.2 ⟨.inl ⟨b, hmem, rfl⟩, admittedBy_iff.2 fun q hq => ?_⟩, hst⟩
    exact hst.admits _ (admittedBy_iff.1 ha q hq)
  · have ht : r.text ∈ bare := by
      refine (bareRevisions_ok hb r.text).2 ⟨hq, fun w hw hr => ?_, hhas⟩
      obtain ⟨b, hmem, rfl⟩ := List.mem_map.1 hw
      exact hlisted ⟨b, List.mem_mergeSort.1 hmem, by simpa [Version.revision?] using hr⟩
    exact ⟨.revision r, mem_viable.2 ⟨.inr ⟨r.text, ht, rfl⟩, ha⟩, .refl rfl⟩

theorem length_viable_le (hv : u.versions project = .ok versions)
    (hb : ((u.solver problem options limits).bareRevisions project
      ((Preference.upgrade.sort versions).map Version.bound) requirements).outcome = .ok bare) :
    (viable versions bare requirements).length ≤ 2 * u.snapshotBound := by
  obtain ⟨snapshots, hs, rfl⟩ := Universe.versions_eq_ok_iff.1 hv
  have hbare := bareRevisions_length_le hs hb
  have hbound := Universe.length_le_snapshotBound hs
  have hnamed := List.length_filterMap_le Snapshot.bound? snapshots
  refine Nat.le_trans (List.length_filter_le ..) ?_
  rw [List.length_append, List.length_map, List.length_map, Preference.sort, List.length_mergeSort]
  omega

end Found

/-- What the candidates of a solver are. -/
theorem candidates_offers {candidates : List Version}
    (h : ((u.solver problem options limits).candidates project requirements).outcome =
      .ok candidates) : u.Offers problem options project requirements candidates := by
  obtain ⟨versions, bare, locked, hv, hb, hl, rfl⟩ := candidates_outcome_eq_ok_iff.1 h
  refine ⟨fun v hm => ?_, fun v hm => ?_, fun v hm => ?_, ?_, ?_, ?_, ?_⟩
  · rcases mem_viable_or_prefers hl hm with hm | ⟨entry, he, rfl, -⟩
    · exact (mem_viable.1 hm).2
    · exact he.admitted
  · rcases mem_viable_or_prefers hl hm with hm | ⟨-, -, -, hh⟩
    · exact has_of_mem_viable hv hb hm
    · exact hh
  · rcases mem_viable_or_prefers hl hm with hm | ⟨entry, he, hv', -⟩
    · rcases (mem_viable.1 hm).1 with ⟨b, hmem, rfl⟩ | ⟨text, ht, rfl⟩
      · exact .inl ⟨versions, hv, b, hmem, rfl⟩
      · exact .inr (.inl ⟨⟨text⟩, rfl, ((bareRevisions_ok hb text).1 ht).1⟩)
    · exact .inr (.inr ⟨entry, he, hv'⟩)
  · rintro v ⟨versions', hv', b, hmem, rfl⟩ ha
    obtain rfl : versions = versions' := by simpa [hv] using hv'
    have hm : Version.bound b ∈ viable versions bare requirements :=
      mem_viable.2 ⟨.inl ⟨b, hmem, rfl⟩, ha⟩
    exact exists_mem_preferring hm (has_of_mem_viable hv hb hm)
  · rintro r hq hhas ha
    obtain ⟨v, hm, hst⟩ := exists_viable_of_named hb hq hhas ha
    obtain ⟨w, hw, hst'⟩ := exists_mem_preferring hm (has_of_mem_viable hv hb hm)
    exact ⟨w, hw, hst'.trans hst⟩
  · intro entry he hh
    have hl' : ((u.solver problem options limits).lockedVersion? project requirements
        (viable versions bare requirements)).outcome = .ok (some entry.version) :=
      lockedVersion?_of_prefers he hh
    obtain rfl : some entry.version = locked := by simpa [hl'] using hl
    rfl
  · exact Nat.le_trans length_preferring_le (Nat.succ_le_succ (length_viable_le hv hb))

variable (problem options limits requirements) in
theorem exists_bareRevisions {snapshots : List Snapshot} (hs : u.snapshots project = .ok snapshots)
    (listed : List Version) : ∃ bare,
      ((u.solver problem options limits).bareRevisions project listed requirements).outcome =
        .ok bare := by
  have hstep : ∀ found r, ∃ found',
      ((u.solver problem options limits).bareStep project listed found r).outcome = .ok found' := by
    intro found r
    have hr : u.hasRevision project r = .ok (snapshots.any fun s => s.revision = r) :=
      Universe.hasRevision_eq_ok_iff.2 ⟨snapshots, hs, rfl⟩
    unfold bareStep
    split
    · exact ⟨found, rfl⟩
    · refine ⟨if snapshots.any (fun s => s.revision = r) then found.insert r.text else found, ?_⟩
      rw [Run.outcome_bind_eq_ok_iff]
      refine ⟨snapshots.any fun s => s.revision = r, ?_, ?_⟩
      · rw [ask_hasRevision_outcome, hr, mapError_ok]
      · split <;> rfl
  rw [bareRevisions_eq]
  generalize requirements.filterMap (·.constraint.revision?) = l
  generalize (SortedSet.empty : SortedSet String) = found
  induction l generalizing found with
  | nil => exact ⟨found, rfl⟩
  | cons r l ih =>
    obtain ⟨found', hfound⟩ := hstep found r
    obtain ⟨bare, hbare⟩ := ih found'
    exact ⟨bare, by rw [List.foldlM_cons, Run.outcome_bind, hfound]; exact hbare⟩

variable (problem options limits requirements) in
/-- The candidates of a project that can be reached are found. -/
theorem exists_candidates {snapshots : List Snapshot} (hs : u.snapshots project = .ok snapshots) :
    ∃ candidates,
      ((u.solver problem options limits).candidates project requirements).outcome =
        .ok candidates := by
  have hv : u.versions project = .ok (snapshots.filterMap Snapshot.bound?) :=
    Universe.versions_eq_ok_iff.2 ⟨snapshots, hs, rfl⟩
  obtain ⟨bare, hb⟩ := exists_bareRevisions problem options limits requirements hs
      ((Preference.upgrade.sort (snapshots.filterMap Snapshot.bound?)).map Version.bound)
  have hl : ∃ locked, ((u.solver problem options limits).lockedVersion? project requirements
      (viable (snapshots.filterMap Snapshot.bound?) bare requirements)).outcome = .ok locked := by
    unfold lockedVersion?
    cases Solver.lockedEntry? (u.solver problem options limits) project requirements with
    | none => exact ⟨_, rfl⟩
    | some entry =>
      cases hr : entry.version.revision? with
      | none =>
        simp only [hr, Run.outcome_pure]
        exact ⟨_, rfl⟩
      | some r =>
        have hh : u.hasRevision project r = .ok (snapshots.any fun s => s.revision = r) :=
          Universe.hasRevision_eq_ok_iff.2 ⟨snapshots, hs, rfl⟩
        simp only [hr, Run.outcome_bind, ask_hasRevision_outcome, hh, mapError_ok, Run.outcome_pure]
        exact ⟨_, rfl⟩
  obtain ⟨locked, hl⟩ := hl
  exact ⟨_, candidates_outcome_eq_ok_iff.2 ⟨_, bare, locked, hv, hb, hl, rfl⟩⟩

/-- Looking for candidates stops only where the project cannot be reached. -/
theorem candidates_stop {e : Stop}
    (h : ((u.solver problem options limits).candidates project requirements).outcome = .error e) :
    ∃ e', u.snapshots project = .error e' ∧ e = .ofLookup e' := by
  cases hs : u.snapshots project with
  | ok snapshots =>
    obtain ⟨candidates, hc⟩ := exists_candidates problem options limits requirements hs
    rw [hc] at h
    simp at h
  | error e' =>
    have hv : u.versions project = .error e' := by rw [Universe.versions, hs]; rfl
    rw [Solver.candidates, Run.outcome_bind, ask_versions_outcome, hv] at h
    exact ⟨e', rfl, by simpa [eq_comm] using h⟩

/-! ## The project to decide on -/

/-- What a choice among projects that wait says, after others with `best` as the best so far. -/
def Fits (s : Solver Unit) (best : Option (Project × List Version))
    (waiting : List (Project × List Requirement)) : Choice → Prop
  | .complete => best = none ∧ waiting = []
  | .project project candidates => best = some (project, candidates) ∨
      (candidates ≠ [] ∧ ∃ requirements, (project, requirements) ∈ waiting ∧
        (s.candidates project requirements).outcome = .ok candidates)
  | .stuck root requirements => ∃ project, project.root = root ∧ (project, requirements) ∈ waiting ∧
      (s.candidates project requirements).outcome = .ok []

theorem chooseFrom_fits {s : Solver Unit} {best : Option (Project × List Version)}
    {waiting : List (Project × List Requirement)} {choice : Choice}
    (h : (s.chooseFrom best waiting).outcome = .ok choice) : s.Fits best waiting choice := by
  -- with the best so far carried along
  induction waiting generalizing best with
  | nil =>
    cases best with
    | none =>
      obtain rfl : Choice.complete = choice := by simpa [chooseFrom] using h
      exact ⟨rfl, rfl⟩
    | some x =>
      obtain rfl : Choice.project x.1 x.2 = choice := by simpa [chooseFrom] using h
      exact .inl rfl
  | cons x waiting ih =>
    obtain ⟨project, requirements⟩ := x
    rw [chooseFrom, Run.outcome_bind_eq_ok_iff] at h
    obtain ⟨candidates, hc, h⟩ := h
    -- what the rest finds, with this project or an earlier one as the best so far
    have hrest : ∀ best', (best' = some (project, candidates) ∨ best' = best) → best' ≠ none →
        candidates ≠ [] → (s.chooseFrom best' waiting).outcome = .ok choice →
          s.Fits best ((project, requirements) :: waiting) choice := by
      intro best' hbest hnone hne h'
      have hfits := ih h'
      cases choice with
      | complete => exact absurd hfits.1 hnone
      | project project' candidates' =>
        rcases hfits with rfl | ⟨hne', requirements', hmem, hc'⟩
        · rcases hbest with hbest | hbest
          · obtain ⟨rfl, rfl⟩ : project' = project ∧ candidates' = candidates := by
              simpa using hbest
            exact .inr ⟨hne, requirements, List.mem_cons_self, hc⟩
          · exact .inl hbest.symm
        · exact .inr ⟨hne', requirements', List.mem_cons_of_mem _ hmem, hc'⟩
      | stuck root requirements' =>
        obtain ⟨project', hroot, hmem, hc'⟩ := hfits
        exact ⟨project', hroot, List.mem_cons_of_mem _ hmem, hc'⟩
    split at h
    · rename_i hempty
      obtain rfl : Choice.stuck project.root requirements = choice := by simpa using h
      obtain rfl : candidates = [] := List.isEmpty_iff.1 hempty
      exact ⟨project, rfl, List.mem_cons_self, hc⟩
    · rename_i hempty
      have hne : candidates ≠ [] := fun he => hempty (List.isEmpty_iff.2 he)
      split at h
      · split at h
        · exact hrest _ (.inl rfl) (by simp) hne h
        · exact hrest _ (.inr rfl) (by simp) hne h
      · exact hrest _ (.inl rfl) (by simp) hne h

/-- Choosing a project stops only where one that waits cannot be reached. -/
theorem chooseFrom_stop {best : Option (Project × List Version)}
    {waiting : List (Project × List Requirement)} {e : Stop}
    (h : ((u.solver problem options limits).chooseFrom best waiting).outcome = .error e) :
    ∃ project requirements e', (project, requirements) ∈ waiting ∧ u.snapshots project = .error e' ∧
      e = .ofLookup e' := by
  induction waiting generalizing best with
  | nil => cases best <;> simp [chooseFrom] at h
  | cons x waiting ih =>
    have hrest : ∀ {best}, ((u.solver problem options limits).chooseFrom best waiting).outcome =
        .error e → ∃ project requirements e', (project, requirements) ∈ x :: waiting ∧
          u.snapshots project = .error e' ∧ e = .ofLookup e' := by
      intro best h
      obtain ⟨project, requirements, e', hmem, hs, he⟩ := ih h
      exact ⟨project, requirements, e', List.mem_cons_of_mem _ hmem, hs, he⟩
    rw [chooseFrom, Run.outcome_bind_eq_error_iff] at h
    rcases h with h | ⟨candidates, -, h⟩
    · obtain ⟨e', hs, he⟩ := candidates_stop h
      exact ⟨x.1, x.2, e', List.mem_cons_self, hs, he⟩
    · split at h
      · simp at h
      · split at h
        · split at h
          · exact hrest h
          · exact hrest h
        · exact hrest h

/-- If all projects that wait can be reached, one is chosen. -/
theorem exists_chooseFrom {best : Option (Project × List Version)}
    {waiting : List (Project × List Requirement)}
    (hs : ∀ project requirements, (project, requirements) ∈ waiting →
      ∃ snapshots, u.snapshots project = .ok snapshots) :
    ∃ choice, ((u.solver problem options limits).chooseFrom best waiting).outcome = .ok choice := by
  induction waiting generalizing best with
  | nil =>
    cases best with
    | none => exact ⟨.complete, rfl⟩
    | some x => exact ⟨.project x.1 x.2, rfl⟩
  | cons x waiting ih =>
    obtain ⟨snapshots, hx⟩ := hs x.1 x.2 List.mem_cons_self
    obtain ⟨candidates, hc⟩ := exists_candidates problem options limits x.2 hx
    have ih' : ∀ best, ∃ choice,
        ((u.solver problem options limits).chooseFrom best waiting).outcome = .ok choice :=
      fun best => ih fun project requirements hmem =>
        hs project requirements (List.mem_cons_of_mem _ hmem)
    rw [chooseFrom, Run.outcome_bind, hc]
    dsimp only
    split
    · exact ⟨_, rfl⟩
    · split
      · split
        · exact ih' _
        · exact ih' _
      · exact ih' _

end Solver

end Depsolve
