import Depsolve.Proofs.Solve.Outcome

/-!
# How expansions run

`Expands` relates a part of an expansion, and the trial it starts from, to how it ends: in a trial,
in a failure, or in a stop. Its constructors are the things that an expansion can do, and
`Solver.expands` says that the expansions of a solver over a plain universe do nothing else. What
all expansions have in common is proved by induction on `Expands`, or on `Adds`, which leaves out
the expansions that fail.
-/

namespace Depsolve

/-- A part of an expansion. -/
inductive Task
  /-- To bring in packages of a project at a version, apart from those known before. -/
  | expand (site : Selected) (packages known : SortedSet String)
  /-- To add what a project requires of others, under the manifest of its version. -/
  | requireAll (site : Selected) (manifest : Manifest) (groups : List (String × SortedSet String))
  /-- To add one requirement of a project. -/
  | require (site : Selected) (r : Requirement)

/-- The imports that lead out of a project, by the roots that own them. -/
structure Universe.Groups (u : Universe) (problem : Problem) (root : String)
    (external : SortedSet String) (groups : List (String × SortedSet String)) : Prop where
  owned : ∀ path ∈ external, ∃ target, u.rootOf path = .ok target
  nonempty : ∀ {target paths}, (target, paths) ∈ groups → ∃ path, path ∈ paths
  /-- A group has imports that belong to its root. -/
  sound : ∀ {target paths}, (target, paths) ∈ groups →
    ∀ path ∈ paths, path ∈ external ∧ u.rootOf path = .ok target
  /-- Each import of another project is in the group of its owner. -/
  complete : ∀ {path target}, path ∈ external → u.rootOf path = .ok target →
    target ≠ problem.root → target ≠ root → ∃ paths, (target, paths) ∈ groups ∧ path ∈ paths

/-- The trial with what a project requires of itself, if that is anything. -/
def Trial.requireInternal (t : Trial) (site : Selected) (added : SortedSet String) : Trial :=
  if added.isEmpty then t else t.require (t.internal site added)

/-- How a part of an expansion ends, with expansions nesting at most so deep. -/
inductive Expands (u : Universe) (problem : Problem) :
    Nat → Task → Trial → Except Stop (Except Failure Trial) → Prop
  | exhausted {site packages known t} :
      Expands u problem 0 (.expand site packages known) t (.error .exhausted)
  | unanswered {n site packages known t e} : u.packagesOf site.project site.version = .error e →
      Expands u problem (n + 1) (.expand site packages known) t (.error (.ofLookup e))
  | missing {n site packages known t tree package} :
      u.packagesOf site.project site.version = .ok tree →
      tree.footprint? (problem.place site.project.root) packages known = .error package →
      Expands u problem (n + 1) (.expand site packages known) t
        (.ok (.error (t.missingPackage site package)))
  | unowned {n site packages known t tree f path e} :
      u.packagesOf site.project site.version = .ok tree →
      tree.footprint? (problem.place site.project.root) packages known = .ok f →
      path ∈ f.external → u.rootOf path = .error e →
      Expands u problem (n + 1) (.expand site packages known) t (.error (.ofLookup e))
  /-- The packages are there; what they require of others is added. -/
  | walked {n site packages known t tree manifest f groups res} :
      u.packagesOf site.project site.version = .ok tree →
      u.manifestOf site.project site.version = .ok manifest →
      tree.footprint? (problem.place site.project.root) packages known = .ok f →
      u.Groups problem site.project.root f.external groups →
      Expands u problem n (.requireAll site manifest groups)
        (t.requireInternal site (f.packages.diff known)) res →
      Expands u problem (n + 1) (.expand site packages known) t res
  | done {n site manifest t} : Expands u problem n (.requireAll site manifest []) t (.ok (.ok t))
  | next {n site manifest target packages rest t t' res} :
      Expands u problem n
        (.require site (t.external site target (problem.termsFor manifest target) packages)) t
        (.ok (.ok t')) →
      Expands u problem n (.requireAll site manifest rest) t' res →
      Expands u problem n (.requireAll site manifest ((target, packages) :: rest)) t res
  | fails {n site manifest target packages rest t failure} :
      Expands u problem n
        (.require site (t.external site target (problem.termsFor manifest target) packages)) t
        (.ok (.error failure)) →
      Expands u problem n (.requireAll site manifest ((target, packages) :: rest)) t
        (.ok (.error failure))
  | stops {n site manifest target packages rest t e} :
      Expands u problem n
        (.require site (t.external site target (problem.termsFor manifest target) packages)) t
        (.error e) →
      Expands u problem n (.requireAll site manifest ((target, packages) :: rest)) t (.error e)
  /-- The project waits for a decision; the requirement is noted. -/
  | waits {n site r t} : t.chosen.selected? r.project.root = none →
      waitingFailure? problem t site r = none →
      Expands u problem n (.require site r) t (.ok (.ok (t.require r)))
  /-- The project waits for a decision, and is to come from elsewhere. -/
  | disagrees {n site r t failure} : t.chosen.selected? r.project.root = none →
      waitingFailure? problem t site r = some failure →
      Expands u problem n (.require site r) t (.ok (.error failure))
  | conflicts {n site r t sel c} : t.chosen.selected? r.project.root = some sel →
      selectedConflict? site r sel = some c →
      Expands u problem n (.require site r) t (.ok (.error ⟨r.culprits.insert sel.index, c⟩))
  /-- The packages are required of the project already. -/
  | known {n site r t sel} : t.chosen.selected? r.project.root = some sel →
      selectedConflict? site r sel = none →
      (∀ q ∈ r.packages, q ∈ t.packagesOf r.project.root) →
      Expands u problem n (.require site r) t (.ok (.ok (t.require r)))
  /-- Some packages are new to the project, and are brought in. -/
  | fresh {n site r t sel q t'} : t.chosen.selected? r.project.root = some sel →
      selectedConflict? site r sel = none → q ∈ r.packages → ¬ q ∈ t.packagesOf r.project.root →
      Expands u problem n (.expand sel (r.packages.diff (t.packagesOf r.project.root))
        (t.packagesOf r.project.root)) (t.require r) (.ok (.ok t')) →
      Expands u problem n (.require site r) t (.ok (.ok t'))
  /-- Some packages are new to the project, and cannot be brought in. -/
  | freshFails {n site r t sel q failure} : t.chosen.selected? r.project.root = some sel →
      selectedConflict? site r sel = none → q ∈ r.packages → ¬ q ∈ t.packagesOf r.project.root →
      Expands u problem n (.expand sel (r.packages.diff (t.packagesOf r.project.root))
        (t.packagesOf r.project.root)) (t.require r) (.ok (.error failure)) →
      Expands u problem n (.require site r) t
        (.ok (.error { failure with
          culprits := failure.culprits.union (r.culprits.insert sel.index) }))
  /-- Some packages are new to the project, and bringing them in stops the run. -/
  | freshStops {n site r t sel q e} : t.chosen.selected? r.project.root = some sel →
      selectedConflict? site r sel = none → q ∈ r.packages → ¬ q ∈ t.packagesOf r.project.root →
      Expands u problem n (.expand sel (r.packages.diff (t.packagesOf r.project.root))
        (t.packagesOf r.project.root)) (t.require r) (.error e) →
      Expands u problem n (.require site r) t (.error e)

/-- How a part of an expansion succeeds: what `Expands` says of it, without the ways to fail. -/
inductive Adds (u : Universe) (problem : Problem) : Nat → Task → Trial → Trial → Prop
  | walked {n site packages known t tree manifest f groups t'} :
      u.packagesOf site.project site.version = .ok tree →
      u.manifestOf site.project site.version = .ok manifest →
      tree.footprint? (problem.place site.project.root) packages known = .ok f →
      u.Groups problem site.project.root f.external groups →
      Adds u problem n (.requireAll site manifest groups)
        (t.requireInternal site (f.packages.diff known)) t' →
      Adds u problem (n + 1) (.expand site packages known) t t'
  | done {n site manifest t} : Adds u problem n (.requireAll site manifest []) t t
  | next {n site manifest target packages rest t t1 t'} :
      Adds u problem n
        (.require site (t.external site target (problem.termsFor manifest target) packages)) t t1 →
      Adds u problem n (.requireAll site manifest rest) t1 t' →
      Adds u problem n (.requireAll site manifest ((target, packages) :: rest)) t t'
  | waits {n site r t} : t.chosen.selected? r.project.root = none →
      waitingFailure? problem t site r = none → Adds u problem n (.require site r) t (t.require r)
  | known {n site r t sel} : t.chosen.selected? r.project.root = some sel →
      selectedConflict? site r sel = none →
      (∀ q ∈ r.packages, q ∈ t.packagesOf r.project.root) →
      Adds u problem n (.require site r) t (t.require r)
  | fresh {n site r t sel q t'} : t.chosen.selected? r.project.root = some sel →
      selectedConflict? site r sel = none → q ∈ r.packages → ¬ q ∈ t.packagesOf r.project.root →
      Adds u problem n (.expand sel (r.packages.diff (t.packagesOf r.project.root))
        (t.packagesOf r.project.root)) (t.require r) t' →
      Adds u problem n (.require site r) t t'

theorem Expands.adds {u : Universe} {problem : Problem} {n : Nat} {task : Task} {t t' : Trial}
    {res : Except Stop (Except Failure Trial)} (h : Expands u problem n task t res)
    (hres : res = .ok (.ok t')) : Adds u problem n task t t' := by
  induction h generalizing t' with
  | exhausted => simp at hres
  | unanswered => simp at hres
  | missing => simp at hres
  | unowned => simp at hres
  | fails => simp at hres
  | stops => simp at hres
  | disagrees => simp at hres
  | conflicts => simp at hres
  | freshFails => simp at hres
  | freshStops => simp at hres
  | walked hp hm hf hg _ ih => exact .walked hp hm hf hg (ih hres)
  | done =>
    obtain rfl : _ = t' := by simpa using hres
    exact .done
  | next _ _ ih1 ih2 => exact .next (ih1 rfl) (ih2 hres)
  | waits hs hw =>
    obtain rfl : _ = t' := by simpa using hres
    exact .waits hs hw
  | known hs hc hk =>
    obtain rfl : _ = t' := by simpa using hres
    exact .known hs hc hk
  | fresh hs hc hq hn _ ih => exact .fresh hs hc hq hn (ih hres)

/-! ## Groups -/

theorem mem_groupByRoot {owned : List (String × String)} {target path : String} :
    (∃ paths, (target, paths) ∈ (groupByRoot owned).entries ∧ path ∈ paths) ↔
      (target, path) ∈ owned := by
  -- what the groups have so far, together with what is left to group
  have hfold : ∀ (l : List (String × String)) (m : SortedMap String (SortedSet String)),
      (∃ paths, (l.foldl (fun groups (x : String × String) =>
          groups.insert x.1 (((groups.get? x.1).getD .empty).insert x.2)) m).get? target =
            some paths ∧ path ∈ paths) ↔
        (∃ paths, m.get? target = some paths ∧ path ∈ paths) ∨ (target, path) ∈ l := by
    intro l
    induction l with
    | nil => simp
    | cons x l ih =>
      intro m
      rw [List.foldl_cons, ih, SortedMap.get?_insert, List.mem_cons, ← or_assoc]
      refine or_congr ?_ Iff.rfl
      by_cases hx : target = x.1
      · rw [if_pos hx]
        constructor
        · rintro ⟨paths, hpaths, hpath⟩
          obtain rfl := Option.some.inj hpaths
          rcases SortedSet.mem_insert.1 hpath with rfl | hpath
          · exact .inr (by rw [hx])
          · cases hm : m.get? x.1 with
            | none => simp [hm] at hpath
            | some old => exact .inl ⟨old, by rw [hx, hm], by simpa [hm] using hpath⟩
        · rintro (⟨paths, hm, hpath⟩ | hx')
          · refine ⟨_, rfl, SortedSet.mem_insert.2 (.inr ?_)⟩
            rw [hx] at hm
            simpa [hm] using hpath
          · exact ⟨_, rfl, SortedSet.mem_insert.2 (.inl (by rw [← hx']))⟩
      · rw [if_neg hx]
        constructor
        · exact .inl
        · rintro (h | h)
          · exact h
          · exact absurd (congrArg Prod.fst h) hx
  have h := hfold owned .empty
  simp only [SortedMap.get?_empty, reduceCtorEq, false_and, exists_false, false_or] at h
  rw [← h]
  constructor
  · rintro ⟨paths, hm, hp⟩
    exact ⟨paths, SortedMap.get?_eq_some_iff.2 hm, hp⟩
  · rintro ⟨paths, hm, hp⟩
    exact ⟨paths, SortedMap.get?_eq_some_iff.1 hm, hp⟩

theorem groupByRoot_nonempty {owned : List (String × String)} {target : String}
    {paths : SortedSet String} (h : (target, paths) ∈ (groupByRoot owned).entries) :
    ∃ path, path ∈ paths := by
  have hfold : ∀ (l : List (String × String)) (m : SortedMap String (SortedSet String)),
      (∀ root set, m.get? root = some set → ∃ path, path ∈ set) →
      ∀ root set, (l.foldl (fun groups (x : String × String) =>
          groups.insert x.1 (((groups.get? x.1).getD .empty).insert x.2)) m).get? root = some set →
        ∃ path, path ∈ set := by
    intro l
    induction l with
    | nil => exact fun _ hm => hm
    | cons x l ih =>
      intro m hm
      refine ih _ fun root set hset => ?_
      rw [SortedMap.get?_insert] at hset
      split at hset
      · obtain rfl := Option.some.inj hset
        exact ⟨x.2, SortedSet.mem_insert.2 (.inl rfl)⟩
      · exact hm root set hset
  refine hfold owned .empty (fun root set hset => ?_) target paths (SortedMap.get?_eq_some_iff.2 h)
  rw [SortedMap.get?_empty] at hset
  simp at hset

variable {u : Universe} {problem : Problem} {options : SolveOptions} {limits : Limits}

theorem Solver.ownersOf_cons_outcome (path : String) (paths : List String) :
    ((u.solver problem options limits).ownersOf (path :: paths)).outcome =
      match u.rootOf path with
      | .error e => .error (.ofLookup e)
      | .ok root =>
        match ((u.solver problem options limits).ownersOf paths).outcome with
        | .error e => .error e
        | .ok owned => .ok ((root, path) :: owned) := by
  rw [ownersOf, List.mapM_cons, Run.outcome_bind, Run.outcome_bind]
  rw [show (u.solver problem options limits).source.rootOf path = answer (u.rootOf path) from rfl,
    Run.outcome_ask_answer]
  cases u.rootOf path with
  | error e => rfl
  | ok root =>
    simp only [mapError_ok, Run.outcome_pure, Run.outcome_bind, ownersOf]
    split <;> simp_all

variable (u problem options limits) in
/-- The owners that a solver finds, or the path for which it finds none. -/
theorem Solver.ownersOf_outcome (paths : List String) :
    match ((u.solver problem options limits).ownersOf paths).outcome with
    | .ok owned => (∀ path ∈ paths, ∃ root, u.rootOf path = .ok root) ∧
        ∀ root path, (root, path) ∈ owned ↔ path ∈ paths ∧ u.rootOf path = .ok root
    | .error e => ∃ path ∈ paths, ∃ e', u.rootOf path = .error e' ∧ e = .ofLookup e' := by
  induction paths with
  | nil =>
    have hnil : ((u.solver problem options limits).ownersOf []).outcome = .ok [] := rfl
    rw [hnil]
    simp
  | cons path paths ih =>
    rw [ownersOf_cons_outcome]
    cases hr : u.rootOf path with
    | error e => exact ⟨path, List.mem_cons_self, e, hr, rfl⟩
    | ok root =>
      cases ho : ((u.solver problem options limits).ownersOf paths).outcome with
      | error e =>
        rw [ho] at ih
        obtain ⟨p, hp, e', he⟩ := ih
        exact ⟨p, List.mem_cons_of_mem _ hp, e', he⟩
      | ok owned =>
        rw [ho] at ih
        refine ⟨List.forall_mem_cons.2 ⟨⟨root, hr⟩, ih.1⟩, fun r p => ?_⟩
        rw [List.mem_cons, List.mem_cons, ih.2 r p]
        constructor
        · rintro (h | h)
          · obtain ⟨rfl, rfl⟩ := Prod.mk.inj h
            exact ⟨.inl rfl, hr⟩
          · exact ⟨.inr h.1, h.2⟩
        · rintro ⟨rfl | hp, h⟩
          · rw [hr] at h
            exact .inl (by rw [Except.ok.inj h])
          · exact .inr ⟨hp, h⟩

/-- The groups that a solver forms of the imports that lead out of a project. -/
theorem groups_of_owned {root : String} {external : SortedSet String}
    {owned : List (String × String)}
    (howned : ∀ path ∈ external.toList, ∃ target, u.rootOf path = .ok target)
    (hmem : ∀ target path,
      (target, path) ∈ owned ↔ path ∈ external.toList ∧ u.rootOf path = .ok target) :
    u.Groups problem root external
      (groupByRoot (owned.filter fun (target, _) =>
        target ≠ problem.root ∧ target ≠ root)).entries where
  owned := howned
  nonempty := groupByRoot_nonempty
  sound := by
    intro target paths hg path hp
    have h := mem_groupByRoot.1 ⟨paths, hg, hp⟩
    exact (hmem target path).1 (List.mem_filter.1 h).1
  complete := by
    intro path target hp hr hproblem hroot
    refine mem_groupByRoot.2 (List.mem_filter.2 ⟨(hmem target path).2 ⟨hp, hr⟩, ?_⟩)
    simp [hproblem, hroot]

/-! ## Attempts -/

/-- How an attempt over a plain universe ends: in a stop, a failure or a value. -/
def Attempt.outcome {α : Type} (m : Attempt Unit α) : Except Stop (Except Failure α) :=
  Run.outcome m.run

namespace Attempt

variable {α β : Type}

@[simp]
theorem outcome_pure (a : α) : (pure a : Attempt Unit α).outcome = .ok (.ok a) := rfl

@[simp]
theorem outcome_throw (e : Failure) : (throw e : Attempt Unit α).outcome = .ok (.error e) := rfl

@[simp]
theorem outcome_bind (m : Attempt Unit α) (f : α → Attempt Unit β) :
    (m >>= f).outcome =
      match m.outcome with
      | .ok (.ok a) => (f a).outcome
      | .ok (.error e) => .ok (.error e)
      | .error e => .error e := by
  simp only [outcome, ExceptT.run_bind, Run.outcome_bind]
  rcases Run.outcome m.run with _ | _ | _ <;> rfl

@[simp]
theorem outcome_inquire (m : Run Unit α) :
    (inquire m : Attempt Unit α).outcome = m.outcome.map .ok := by
  show (m >>= fun a => pure (Except.ok a)).outcome = _
  rw [Run.outcome_bind]
  cases m.outcome <;> rfl

@[simp]
theorem outcome_tryCatch (m : Attempt Unit α) (f : Failure → Attempt Unit α) :
    (tryCatch m f).outcome =
      match m.outcome with
      | .ok (.error e) => (f e).outcome
      | other => other := by
  simp only [outcome, ExceptT.run, tryCatch, tryCatchThe, MonadExceptOf.tryCatch, ExceptT.tryCatch,
    ExceptT.mk]
  rw [Run.outcome_bind]
  generalize Run.outcome m = r
  rcases r with _ | _ | _ <;> rfl

end Attempt

/-! ## Expansions do nothing else -/

namespace Solver

/-- Adding a requirement does what `Expands` says, if expanding does. -/
theorem require_expands {n : Nat}
    (ih : ∀ site packages known t, Expands u problem n (.expand site packages known) t
      ((u.solver problem options limits).expand n site packages known t).outcome)
    (site : Selected) (r : Requirement) (t : Trial) :
    Expands u problem n (.require site r) t
      ((u.solver problem options limits).require
        ((u.solver problem options limits).expand n) site r t).outcome := by
  unfold require
  cases hsel : t.chosen.selected? r.project.root with
  | none =>
    cases hw : waitingFailure? problem t site r with
    | none =>
      have hw' : waitingFailure? (u.solver problem options limits).problem t site r = none := hw
      simp only [hw']
      exact .waits hsel hw
    | some failure =>
      have hw' : waitingFailure? (u.solver problem options limits).problem t site r =
          some failure := hw
      simp only [hw']
      exact .disagrees hsel hw
  | some sel =>
    cases hc : selectedConflict? site r sel with
    | some c =>
      simp only [hc]
      exact .conflicts hsel hc
    | none =>
      simp only [hc]
      split
      -- no package is new
      · rename_i hempty
        refine .known hsel hc fun q hq => Classical.byContradiction fun hn => ?_
        exact SortedSet.isEmpty_iff.1 hempty q (SortedSet.mem_diff.2 ⟨hq, hn⟩)
      · rename_i hempty
        obtain ⟨q, hq⟩ := SortedSet.exists_mem_of_not_isEmpty hempty
        obtain ⟨hq, hn⟩ := SortedSet.mem_diff.1 hq
        have h := ih sel (r.packages.diff (t.packagesOf r.project.root))
          (t.packagesOf r.project.root) (t.require r)
        -- a failure is caught and thrown again, with the decision on that project to blame as well
        rw [Attempt.outcome_tryCatch]
        rcases ho : ((u.solver problem options limits).expand n sel
          (r.packages.diff (t.packagesOf r.project.root)) (t.packagesOf r.project.root)
          (t.require r)).outcome with e | failure | t'
        · rw [ho] at h
          exact .freshStops hsel hc hq hn h
        · rw [ho] at h
          exact .freshFails hsel hc hq hn h
        · rw [ho] at h
          exact .fresh hsel hc hq hn h

theorem requireAll_expands {n : Nat}
    (ih : ∀ site packages known t, Expands u problem n (.expand site packages known) t
      ((u.solver problem options limits).expand n site packages known t).outcome)
    (site : Selected) (manifest : Manifest) (groups : List (String × SortedSet String))
    (t : Trial) :
    Expands u problem n (.requireAll site manifest groups) t
      (Attempt.outcome (groups.foldlM (fun t (target, packages) =>
        (u.solver problem options limits).require ((u.solver problem options limits).expand n) site
          (t.external site target (problem.termsFor manifest target) packages) t) t)) := by
  induction groups generalizing t with
  | nil => exact .done
  | cons group groups ihg =>
    obtain ⟨target, packages⟩ := group
    have h := require_expands ih site
      (t.external site target (problem.termsFor manifest target) packages) t
    rw [List.foldlM_cons, Attempt.outcome_bind]
    rcases ho : ((u.solver problem options limits).require
      ((u.solver problem options limits).expand n) site
      (t.external site target (problem.termsFor manifest target) packages) t).outcome
      with e | failure | t'
    · rw [ho] at h
      exact .stops h
    · rw [ho] at h
      exact .fails h
    · rw [ho] at h
      exact .next h (ihg t')

/-- What an expansion asks for, in order, and where it goes on from there. -/
theorem expand_outcome (n : Nat) (site : Selected) (packages known : SortedSet String) (t : Trial) :
    ((u.solver problem options limits).expand (n + 1) site packages known t).outcome =
      match u.packagesOf site.project site.version with
      | .error e => .error (.ofLookup e)
      | .ok tree =>
        match u.manifestOf site.project site.version with
        | .error e => .error (.ofLookup e)
        | .ok manifest =>
          match tree.footprint? (problem.place site.project.root) packages known with
          | .error package => .ok (.error (t.missingPackage site package))
          | .ok f =>
            match ((u.solver problem options limits).ownersOf f.external.toList).outcome with
            | .error e => .error e
            | .ok owned =>
              Attempt.outcome ((groupByRoot (owned.filter fun (target, _) =>
                  target ≠ problem.root ∧ target ≠ site.project.root)).entries.foldlM
                (fun t (target, packages) =>
                  (u.solver problem options limits).require
                    ((u.solver problem options limits).expand n) site
                    (t.external site target (problem.termsFor manifest target) packages) t)
                (t.requireInternal site (f.packages.diff known))) := by
  rw [expand, expandBy, Attempt.outcome_bind, Attempt.outcome_inquire]
  rw [show (u.solver problem options limits).source.packagesOf site.project site.version =
    answer (u.packagesOf site.project site.version) from rfl, Run.outcome_ask_answer]
  cases u.packagesOf site.project site.version with
  | error e => rfl
  | ok tree =>
    simp only [mapError_ok, Except.map]
    rw [Attempt.outcome_bind, Attempt.outcome_inquire]
    rw [show (u.solver problem options limits).source.manifestOf site.project site.version =
      answer (u.manifestOf site.project site.version) from rfl, Run.outcome_ask_answer]
    cases u.manifestOf site.project site.version with
    | error e => rfl
    | ok manifest =>
      simp only [mapError_ok, Except.map]
      rw [show (u.solver problem options limits).problem = problem from rfl]
      cases tree.footprint? (problem.place site.project.root) packages known with
      | error package => rfl
      | ok f =>
        dsimp only
        rw [Attempt.outcome_bind, Attempt.outcome_inquire]
        cases ((u.solver problem options limits).ownersOf f.external.toList).outcome with
        | error e => rfl
        | ok owned => rfl

variable (u problem options limits) in
/-- An expansion over a plain universe does what `Expands` says. -/
theorem expands (n : Nat) (site : Selected) (packages known : SortedSet String) (t : Trial) :
    Expands u problem n (.expand site packages known) t
      ((u.solver problem options limits).expand n site packages known t).outcome := by
  induction n generalizing site packages known t with
  | zero => exact .exhausted
  | succ n ih =>
    rw [expand_outcome]
    cases hp : u.packagesOf site.project site.version with
    | error e => exact .unanswered hp
    | ok tree =>
      obtain ⟨manifest, hm⟩ := Universe.exists_manifestOf hp
      simp only [hm]
      cases hf : tree.footprint? (problem.place site.project.root) packages known with
      | error package => exact .missing hp hf
      | ok f =>
        have howned := ownersOf_outcome u problem options limits f.external.toList
        cases ho : ((u.solver problem options limits).ownersOf f.external.toList).outcome with
        | error e =>
          rw [ho] at howned
          obtain ⟨path, hpath, e', he', rfl⟩ := howned
          simp only [ho]
          exact .unowned hp hf (SortedSet.mem_toList.1 hpath) he'
        | ok owned =>
          rw [ho] at howned
          simp only [ho]
          exact .walked hp hm hf (groups_of_owned howned.1 howned.2) (requireAll_expands ih _ _ _ _)

end Solver

end Depsolve
