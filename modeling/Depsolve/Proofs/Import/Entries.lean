import Depsolve.Proofs.Import.Outcome

/-!
# What the entries of a foreign configuration come to

An entry names a package of a project, and says something about the project: its pin. The entries of
a configuration come to a table of projects (`Universe.Sums`), for which only matters which entries
there are, neither in what order nor how often. Converting entry by entry succeeds just if there is
such a table, and ends with it (`Universe.importAll_ok_iff`).

What one entry does to the table is `Universe.Merges`: the first one of a project settles the terms
and the version, and further ones only add their package.
-/

namespace Depsolve

/-- What an entry says about its project, whichever that is. -/
def ForeignPackage.pin (p : ForeignPackage) : Pin :=
  ⟨trimmed? p.hint, p.revision.map Text.trimmed, trimmed? p.source⟩

theorem Pin.difference?_eq_none_iff {first second : Pin} :
    first.difference? second = none ↔ first = second := by
  obtain ⟨hint, revision, source⟩ := first
  obtain ⟨hint', revision', source'⟩ := second
  unfold difference?
  split
  · simp_all
  · split
    · simp_all
    · split <;> simp_all

namespace Universe

variable {u : Universe} {p : ForeignPackage} {root relative : String}

/-- An entry names a package of a project, by the path relative to the project's root. -/
structure Reads (u : Universe) (p : ForeignPackage) (root relative : String) : Prop where
  named : Text.trimmed p.name ≠ ""
  rootOf : u.rootOf (Text.trimmed p.name) = .ok root
  relative : ImportPath.relative? root (Text.trimmed p.name) = some relative
  /-- No blank text stands for a revision. -/
  pinned : p.pin.revision ≠ some ""

theorem Reads.root_eq {root' relative' : String} (h : u.Reads p root relative)
    (h' : u.Reads p root' relative') : root = root' :=
  Except.ok.inj (h.rootOf.symm.trans h'.rootOf)

theorem Reads.relative_eq {relative' : String} (h : u.Reads p root relative)
    (h' : u.Reads p root relative') : relative = relative' :=
  Option.some.inj (h.relative.symm.trans h'.relative)

/-- What the hint of a project stands for. -/
def Hints (u : Universe) (project : Project) (hint : Option String)
    (hinted : Option Constraint) : Prop :=
  (hint.mapM (constraintOfHint u.source project)).outcome = .ok hinted

/-- The version that a project is locked at for a revision. -/
def Pins (u : Universe) (project : Project) (hinted : Option Constraint) (revision : Option String)
    (version : Option Version) : Prop :=
  (revision.mapM fun r => pinnedVersion u.source project hinted ⟨r⟩).outcome = .ok version

/-- A project has the terms and the version that its pin comes to. -/
structure Settles (u : Universe) (root : String) (hinted : Option Constraint)
    (i : ImportedProject) : Prop where
  hints : u.Hints ⟨root, i.pin.source⟩ i.pin.hint hinted
  pins : u.Pins ⟨root, i.pin.source⟩ hinted i.pin.revision i.version
  terms : i.terms =
    importedTerms? i.pin.source (hinted <|> (i.version.bind Version.named?).map Constraint.ofNamed)

/-- What an entry does to the projects that were converted before it. -/
inductive Merges (u : Universe) (p : ForeignPackage) (projects : Depsolve.Imported) :
    Depsolve.Imported → Prop
  | first {root relative : String} {hinted : Option Constraint} {i : ImportedProject} :
      u.Reads p root relative → projects.get? root = none → u.Settles root hinted i →
      i.pin = p.pin → i.packages = .ofList [relative] → Merges u p projects (projects.insert root i)
  | further {root relative : String} {known : ImportedProject} : u.Reads p root relative →
      projects.get? root = some known → known.pin = p.pin →
      Merges u p projects
        (projects.insert root { known with packages := known.packages.insert relative })

/-! ## One entry -/

theorem importedRoot_ok_iff {name : String} :
    (importedRoot u.source name).outcome = .ok root ↔ u.rootOf name = .ok root := by
  have hroot : u.source.rootOf name = answer (u.rootOf name) := rfl
  unfold importedRoot
  rw [hroot]
  unfold Ask.outcome
  rw [Ask.run_tryCatch]
  cases u.rootOf name with
  | ok r => exact ⟨fun h => congrArg _ (Except.ok.inj h), fun h => congrArg _ (Except.ok.inj h)⟩
  | error e => exact ⟨(nomatch ·), (nomatch ·)⟩

theorem pinOf_ok_iff {pin : Pin} :
    (pinOf root p : Ask Unit Pin).outcome = .ok pin ↔ p.pin.revision ≠ some "" ∧ pin = p.pin := by
  unfold pinOf ForeignPackage.pin
  split
  · rename_i h
    rw [h]
    simp
  · rename_i hne
    have hblank : p.revision.map Text.trimmed ≠ some "" := hne
    rw [Ask.outcome_pure]
    simp [hblank, eq_comm]

theorem importProject_ok_iff {pin : Pin} {i : ImportedProject} :
    (importProject u.source root relative pin).outcome = .ok i ↔
      i.pin = pin ∧ i.packages = .ofList [relative] ∧ ∃ hinted, u.Settles root hinted i := by
  unfold importProject
  dsimp only
  rw [Ask.outcome_bind_eq_ok_iff]
  constructor
  · rintro ⟨hinted, hhints, h⟩
    obtain ⟨version, hpins, h⟩ := Ask.outcome_bind_eq_ok_iff.1 h
    obtain rfl := Except.ok.inj h
    exact ⟨rfl, rfl, hinted, hhints, hpins, rfl⟩
  · rintro ⟨rfl, hpackages, hinted, hhints, hpins, hterms⟩
    refine ⟨hinted, hhints, Ask.outcome_bind_eq_ok_iff.2 ⟨i.version, hpins, ?_⟩⟩
    rw [Ask.outcome_pure, ← hpackages, ← hterms]

/-- Converting an entry does what the entry does, and fails just if it does nothing. -/
theorem importPackage_merges {projects projects' : Depsolve.Imported} {index : Nat} :
    (importPackage u.source projects index p).outcome = .ok projects' ↔
    u.Merges p projects projects' := by
  unfold importPackage
  dsimp only
  by_cases hname : Text.trimmed p.name = ""
  · rw [if_pos hname]
    refine ⟨(nomatch ·), fun h => ?_⟩
    cases h with
    | first hr => exact absurd hname hr.named
    | further hr => exact absurd hname hr.named
  rw [if_neg hname, Ask.outcome_bind_eq_ok_iff]
  constructor
  · rintro ⟨root, hroot, h⟩
    obtain ⟨pin, hpin, h⟩ := Ask.outcome_bind_eq_ok_iff.1 h
    obtain ⟨hblank, rfl⟩ := pinOf_ok_iff.1 hpin
    have howns := importedRoot_ok_iff.1 hroot
    obtain ⟨relative, hrelative⟩ := ImportPath.exists_relative? (covers_of_rootOf howns)
    have hr : u.Reads p root relative := ⟨hname, howns, hrelative, hblank⟩
    rw [hrelative, Option.getD_some] at h
    split at h
    · rename_i known hknown
      split at h
      · exact nomatch h
      · rename_i hsame
        obtain rfl := Except.ok.inj h
        exact .further hr hknown (Pin.difference?_eq_none_iff.1 hsame)
    · rename_i hnew
      obtain ⟨i, hi, h⟩ := Ask.outcome_bind_eq_ok_iff.1 h
      obtain rfl := Except.ok.inj h
      obtain ⟨hpin, hpackages, hinted, hsettles⟩ := importProject_ok_iff.1 hi
      exact .first hr hnew hsettles hpin hpackages
  · intro h
    cases h with
    | first hr hnew hsettles hpin hpackages =>
      refine ⟨_, importedRoot_ok_iff.2 hr.rootOf, Ask.outcome_bind_eq_ok_iff.2
        ⟨_, pinOf_ok_iff.2 ⟨hr.pinned, rfl⟩, ?_⟩⟩
      rw [hr.relative, Option.getD_some, hnew]
      exact Ask.outcome_bind_eq_ok_iff.2 ⟨_,
        importProject_ok_iff.2 ⟨hpin, hpackages, _, hsettles⟩, rfl⟩
    | further hr hknown hpin =>
      refine ⟨_, importedRoot_ok_iff.2 hr.rootOf, Ask.outcome_bind_eq_ok_iff.2
        ⟨_, pinOf_ok_iff.2 ⟨hr.pinned, rfl⟩, ?_⟩⟩
      rw [hr.relative, Option.getD_some, hknown]
      dsimp only
      rw [Pin.difference?_eq_none_iff.2 hpin]
      rfl

/-! ## All entries -/

/-- A table of projects is what some entries come to: the projects that they name, each with the pin
of all its entries, settled by that, and with the packages that its entries name. -/
structure Sums (u : Universe) (entries : List ForeignPackage) (projects : Depsolve.Imported) :
    Prop where
  read : ∀ p ∈ entries, ∃ root relative i, u.Reads p root relative ∧ projects.get? root = some i ∧
    i.pin = p.pin ∧ relative ∈ i.packages
  settled : ∀ {root i}, projects.get? root = some i → ∃ hinted, u.Settles root hinted i
  named : ∀ {root i}, projects.get? root = some i → ∃ relative, relative ∈ i.packages
  package : ∀ {root i}, projects.get? root = some i → ∀ relative ∈ i.packages,
    ∃ p ∈ entries, u.Reads p root relative

theorem sums_nil : u.Sums [] .empty where
  read _ hp := absurd hp List.not_mem_nil
  settled h := nomatch h
  named h := nomatch h
  package h := nomatch h

namespace Sums

variable {entries entries' : List ForeignPackage} {projects projects' : Depsolve.Imported}
  {i : ImportedProject}

/-- Neither the order of entries matters nor how often they stand. -/
theorem congr (h : u.Sums entries projects) (hsame : ∀ p, p ∈ entries ↔ p ∈ entries') :
    u.Sums entries' projects where
  read p hp := h.read p ((hsame p).2 hp)
  settled := h.settled
  named := h.named
  package hi relative hrel := (h.package hi relative hrel).imp fun p hp => ⟨(hsame p).1 hp.1, hp.2⟩

theorem of_reads (h : u.Sums entries projects) (hp : p ∈ entries) (hr : u.Reads p root relative) :
    ∃ i, projects.get? root = some i ∧ i.pin = p.pin ∧ relative ∈ i.packages := by
  obtain ⟨root', relative', i, hr', hi, hpin, hrel⟩ := h.read p hp
  obtain rfl := hr.root_eq hr'
  obtain rfl := hr.relative_eq hr'
  exact ⟨i, hi, hpin, hrel⟩

theorem mem_packages_iff (h : u.Sums entries projects) (hi : projects.get? root = some i) :
    relative ∈ i.packages ↔ ∃ p ∈ entries, u.Reads p root relative := by
  refine ⟨h.package hi relative, fun ⟨p, hp, hr⟩ => ?_⟩
  obtain ⟨i', hi', -, hrel⟩ := h.of_reads hp hr
  obtain rfl := Option.some.inj (hi.symm.trans hi')
  exact hrel

/-- The pin of a project is that of any of its entries. -/
theorem pin_eq (h : u.Sums entries projects) (hi : projects.get? root = some i) (hp : p ∈ entries)
    (hr : u.Reads p root relative) : i.pin = p.pin := by
  obtain ⟨i', hi', hpin, -⟩ := h.of_reads hp hr
  obtain rfl := Option.some.inj (hi.symm.trans hi')
  exact hpin

theorem exists_entry (h : u.Sums entries projects) (hi : projects.get? root = some i) :
    ∃ p ∈ entries, ∃ relative, u.Reads p root relative ∧ i.pin = p.pin := by
  obtain ⟨relative, hrel⟩ := h.named hi
  obtain ⟨p, hp, hr⟩ := h.package hi relative hrel
  exact ⟨p, hp, relative, hr, h.pin_eq hi hp hr⟩

/-- The table is determined by the entries. -/
theorem unique (h : u.Sums entries projects) (h' : u.Sums entries projects') :
    projects = projects' := by
  have hsub : ∀ {projects projects' : Depsolve.Imported}, u.Sums entries projects →
      u.Sums entries projects' →
      ∀ {root i}, projects.get? root = some i → projects'.get? root = some i := by
    intro projects projects' h h' root i hi
    obtain ⟨p, hp, relative, hr, hpin⟩ := h.exists_entry hi
    obtain ⟨i', hi', hpin', -⟩ := h'.of_reads hp hr
    obtain ⟨hinted, hsettles⟩ := h.settled hi
    obtain ⟨hinted', hsettles'⟩ := h'.settled hi'
    have hpackages : i.packages = i'.packages := SortedSet.ext fun relative => by
      rw [h.mem_packages_iff hi, h'.mem_packages_iff hi']
    obtain ⟨pin, terms, version, packages⟩ := i
    obtain ⟨pin', terms', version', packages'⟩ := i'
    obtain rfl : pin = pin' := hpin.trans hpin'.symm
    obtain rfl : packages = packages' := hpackages
    -- the pin determines the rest
    obtain rfl : hinted = hinted' := Except.ok.inj (hsettles.hints.symm.trans hsettles'.hints)
    obtain rfl : version = version' := Except.ok.inj (hsettles.pins.symm.trans hsettles'.pins)
    obtain rfl : terms = terms' := hsettles.terms.trans hsettles'.terms.symm
    exact hi'
  refine SortedMap.ext fun root => ?_
  cases hi : projects.get? root with
  | some i => rw [hsub h h' hi]
  | none =>
    cases hi' : projects'.get? root with
    | none => rfl
    | some i' => rw [hsub h' h hi'] at hi; exact nomatch hi

/-- An entry is added to what the entries before it come to by a project with its pin and its
package, which takes the place of the one that is there. -/
theorem insert {hinted : Option Constraint} (h : u.Sums entries projects)
    (hr : u.Reads p root relative) (hpin : i.pin = p.pin) (hsettles : u.Settles root hinted i)
    (hknown : ∀ known, projects.get? root = some known → known.pin = p.pin)
    (hpackages : ∀ r, r ∈ i.packages ↔
      r = relative ∨ ∃ known, projects.get? root = some known ∧ r ∈ known.packages) :
    u.Sums (entries ++ [p]) (projects.insert root i) := by
  have hself : (projects.insert root i).get? root = some i := by
    rw [SortedMap.get?_insert, if_pos rfl]
  refine ⟨fun q hq => ?_, fun {root' i'} hi => ?_, fun {root' i'} hi => ?_,
    fun {root' i'} hi r hrel => ?_⟩
  · rcases List.mem_append.1 hq with hq | hq
    · obtain ⟨root', relative', i', hr', hi', hpin', hrel'⟩ := h.read q hq
      by_cases hroot : root' = root
      · subst hroot
        exact ⟨root', relative', i, hr', hself, hpin.trans ((hknown i' hi').symm.trans hpin'),
          (hpackages _).2 (.inr ⟨i', hi', hrel'⟩)⟩
      · refine ⟨root', relative', i', hr', ?_, hpin', hrel'⟩
        rw [SortedMap.get?_insert, if_neg hroot]
        exact hi'
    · rw [List.mem_singleton.1 hq]
      exact ⟨root, relative, i, hr, hself, hpin, (hpackages _).2 (.inl rfl)⟩
  all_goals rw [SortedMap.get?_insert] at hi; split at hi
  · rename_i hroot
    obtain rfl := Option.some.inj hi
    exact hroot ▸ ⟨hinted, hsettles⟩
  · exact h.settled hi
  · obtain rfl := Option.some.inj hi
    exact ⟨relative, (hpackages _).2 (.inl rfl)⟩
  · exact h.named hi
  · rename_i hroot
    obtain rfl := Option.some.inj hi
    rcases (hpackages r).1 hrel with rfl | ⟨known, hknown, hrel⟩
    · exact hroot ▸ ⟨p, List.mem_append_right _ List.mem_cons_self, hr⟩
    · obtain ⟨q, hq, hr'⟩ := h.package hknown r hrel
      exact hroot ▸ ⟨q, List.mem_append_left _ hq, hr'⟩
  · obtain ⟨q, hq, hr'⟩ := h.package hi r hrel
    exact ⟨q, List.mem_append_left _ hq, hr'⟩

/-- An entry adds itself to what the entries before it come to. -/
theorem merge (h : u.Sums entries projects) (hm : u.Merges p projects projects') :
    u.Sums (entries ++ [p]) projects' := by
  cases hm with
  | first hr hnew hsettles hpin hpackages =>
    refine h.insert hr hpin hsettles (fun known hknown => ?_) fun r => ?_
    · rw [hnew] at hknown
      exact nomatch hknown
    · simp [hpackages, SortedSet.mem_ofList, hnew]
  | @further root relative known hr hknown hpin =>
    obtain ⟨hinted, hsettles⟩ := h.settled hknown
    refine h.insert hr hpin ⟨hsettles.hints, hsettles.pins, hsettles.terms⟩
      (fun known' hknown' => ?_) fun r => ?_
    · obtain rfl := Option.some.inj (hknown.symm.trans hknown')
      exact hpin
    · simp [SortedSet.mem_insert, hknown]

/-- If entries come to something, so does each of them after any others of them. -/
theorem exists_merges {total : Depsolve.Imported} (h : u.Sums entries projects)
    (htotal : u.Sums entries' total) (hsub : ∀ q ∈ entries, q ∈ entries') (hp : p ∈ entries') :
    ∃ projects', u.Merges p projects projects' := by
  obtain ⟨root, relative, i, hr, hi, hpin, -⟩ := htotal.read p hp
  cases hknown : projects.get? root with
  | none =>
    obtain ⟨hinted, hsettles⟩ := htotal.settled hi
    exact ⟨_, .first (i := { i with packages := .ofList [relative] }) hr hknown
      ⟨hsettles.hints, hsettles.pins, hsettles.terms⟩ hpin rfl⟩
  | some known =>
    -- an entry that was converted before has the same pin
    obtain ⟨q, hq, relative', hr', hpin'⟩ := h.exists_entry hknown
    exact ⟨_, .further hr hknown (hpin'.trans ((htotal.pin_eq hi (hsub q hq) hr').symm.trans hpin))⟩

end Sums

theorem importAll_sums {rest done : List ForeignPackage} {n : Nat}
    {projects projects' : Depsolve.Imported} (h : u.Sums done projects)
    (hrun : ((rest.zipIdx n).foldlM
      (fun projects (p, index) => importPackage u.source projects index p)
      projects).outcome = .ok projects') : u.Sums (done ++ rest) projects' := by
  induction rest generalizing done n projects with
  | nil =>
    obtain rfl := Except.ok.inj hrun
    rw [List.append_nil]
    exact h
  | cons p rest ih =>
    rw [List.zipIdx_cons, List.foldlM_cons] at hrun
    obtain ⟨next, hnext, hrun⟩ := Ask.outcome_bind_eq_ok_iff.1 hrun
    rw [List.append_cons]
    exact ih (h.merge (importPackage_merges.1 hnext)) hrun

theorem exists_importAll {rest done : List ForeignPackage} {n : Nat}
    {projects total : Depsolve.Imported} (h : u.Sums done projects)
    (htotal : u.Sums (done ++ rest) total) :
    ((rest.zipIdx n).foldlM (fun projects (p, index) => importPackage u.source projects index p)
      projects).outcome = .ok total := by
  induction rest generalizing done n projects with
  | nil =>
    rw [List.append_nil] at htotal
    exact congrArg _ (h.unique htotal)
  | cons p rest ih =>
    obtain ⟨next, hnext⟩ := h.exists_merges htotal (fun q hq => List.mem_append_left _ hq)
      (List.mem_append_right _ List.mem_cons_self)
    rw [List.append_cons] at htotal
    rw [List.zipIdx_cons, List.foldlM_cons]
    exact Ask.outcome_bind_eq_ok_iff.2 ⟨next, importPackage_merges.2 hnext,
      ih (h.merge hnext) htotal⟩

/-- Converting entry by entry ends with what the entries come to, if they come to anything. -/
theorem importAll_ok_iff {entries : List ForeignPackage} {projects : Depsolve.Imported} :
    (entries.zipIdx.foldlM (fun projects (p, index) => importPackage u.source projects index p)
      (SortedMap.empty : Depsolve.Imported)).outcome = .ok projects ↔ u.Sums entries projects :=
  ⟨importAll_sums sums_nil, exists_importAll sums_nil⟩

/-- A configuration is converted just if its rules are all right and its entries come to
something. -/
theorem convert_ok_iff {config : ForeignConfig} {c : Conversion} :
    (convert u.source config).outcome = .ok c ↔ (∀ rule ∈ config.ignored, checkRule rule = .ok ()) ∧
      ∃ projects, u.Sums config.packages projects ∧
        c = projects.conversion (.ofList config.ignored) := by
  unfold convert
  rw [Ask.outcome_bind_eq_ok_iff]
  constructor
  · rintro ⟨⟨⟩, hrules, h⟩
    obtain ⟨projects, hprojects, h⟩ := Ask.outcome_bind_eq_ok_iff.1 h
    exact ⟨forM_eq_ok_iff.1 hrules, projects, importAll_ok_iff.1 hprojects, (Except.ok.inj h).symm⟩
  · rintro ⟨hrules, projects, hprojects, rfl⟩
    exact ⟨(), forM_eq_ok_iff.2 hrules,
      Ask.outcome_bind_eq_ok_iff.2 ⟨projects, importAll_ok_iff.2 hprojects, rfl⟩⟩

end Universe

end Depsolve
