import Depsolve.Proofs.Constraint.Admission
import Depsolve.Proofs.Import.Lookup
import Depsolve.Proofs.Import.Order

/-!
# What a conversion gives

The manifest and the lock of a conversion, told by the entries of the configuration
(`Universe.Converts`): which projects are locked, at which versions and with which packages, and
which have a constraint. A field of an entry counts for what it gives (`Gives`): the text in it
without white space around it, if it is not blank. How entries with and without hints, sources and
revisions follow one another does not show.
-/

namespace Depsolve

/-! ## Fields -/

/-- A field of an entry gives a text: that is what it holds, without white space around it,
and not empty. -/
def Gives (field : Option String) (text : String) : Prop :=
  text ≠ "" ∧ ∃ raw, field = some raw ∧ Text.trimmed raw = text

theorem trimmed?_eq_some_iff {field : Option String} {text : String} :
    trimmed? field = some text ↔ Gives field text := by
  rw [trimmed?, Option.filter_eq_some_iff, Option.map_eq_some_iff, decide_eq_true_eq,
    and_comm, Gives]

theorem isSome_trimmed?_iff {field : Option String} :
    (trimmed? field).isSome ↔ ∃ text, Gives field text := by
  simp only [Option.isSome_iff_exists, trimmed?_eq_some_iff]

theorem trimmed?_eq_none_iff {field : Option String} :
    trimmed? field = none ↔ ∀ text, ¬ Gives field text := by
  simp only [Option.eq_none_iff_forall_ne_some, ne_eq, trimmed?_eq_some_iff]

theorem eq_trimmed?_iff {field source : Option String} :
    source = trimmed? field ↔ ∀ text, source = some text ↔ Gives field text := by
  rw [Option.ext_iff]
  simp only [trimmed?_eq_some_iff]

/-! ## Manifests and locks -/

namespace Imported

variable {projects : Imported} {root : String}

theorem mem_locked {e : LockedProject} :
    e ∈ projects.locked ↔ ∃ i, projects.get? e.project.root = some i ∧ i.version = some e.version ∧
      e.project.source = i.pin.source ∧ e.packages = i.packages := by
  unfold locked
  rw [List.mem_filterMap]
  constructor
  · rintro ⟨⟨root, i⟩, hi, he⟩
    obtain ⟨v, hv, rfl⟩ := Option.map_eq_some_iff.1 he
    exact ⟨i, SortedMap.get?_eq_some_iff.2 hi, hv, rfl, rfl⟩
  · obtain ⟨⟨root, source⟩, v, packages⟩ := e
    rintro ⟨i, hi, hv, rfl, rfl⟩
    exact ⟨(root, i), SortedMap.get?_eq_some_iff.1 hi, Option.map_eq_some_iff.2 ⟨v, hv, rfl⟩⟩

theorem locked_ascending : (projects.locked.map (·.project.root)).Pairwise (· < ·) := by
  rw [List.pairwise_map]
  refine List.Pairwise.filterMap _ (fun a b hab e he e' he' => ?_) projects.ascending
  obtain ⟨v, -, rfl⟩ := Option.map_eq_some_iff.1 he
  obtain ⟨v', -, rfl⟩ := Option.map_eq_some_iff.1 he'
  exact hab

theorem get?_terms :
    projects.terms.get? root = (projects.get? root).bind ImportedProject.terms := by
  have hmem : ∀ {t}, projects.terms.get? root = some t →
      (projects.get? root).bind ImportedProject.terms = some t := by
    intro t ht
    obtain ⟨⟨root', i⟩, hi, he⟩ :=
      List.mem_filterMap.1 (SortedMap.mem_of_mem_ofList (SortedMap.get?_eq_some_iff.1 ht))
    obtain ⟨t', hterms, he⟩ := Option.map_eq_some_iff.1 he
    obtain ⟨rfl, rfl⟩ := Prod.mk.inj he
    rw [SortedMap.get?_eq_some_iff.2 hi]
    exact hterms
  cases ht : projects.terms.get? root with
  | some t => exact (hmem ht).symm
  | none =>
    cases hb : (projects.get? root).bind ImportedProject.terms with
    | none => rfl
    | some t =>
      obtain ⟨i, hi, hterms⟩ := Option.bind_eq_some_iff.1 hb
      have hentry : (root, t) ∈ projects.entries.filterMap fun e =>
          e.2.terms.map fun t => (e.1, t) :=
        List.mem_filterMap.2 ⟨(root, i), SortedMap.get?_eq_some_iff.1 hi,
          Option.map_eq_some_iff.2 ⟨t, hterms, rfl⟩⟩
      obtain ⟨w, hw⟩ := SortedMap.exists_mem_ofList hentry
      rw [show projects.terms.get? root = some w from SortedMap.get?_eq_some_iff.2 hw] at ht
      exact nomatch ht

theorem conversion_lock_eq_none_iff {ignored : SortedSet String} :
    (projects.conversion ignored).lock = none ↔ projects.locked = [] := by
  simp [conversion]

theorem eq_of_conversion_lock {ignored : SortedSet String} {lock : Lock}
    (h : (projects.conversion ignored).lock = some lock) : lock = ⟨projects.locked, none⟩ := by
  unfold conversion at h
  dsimp only at h
  split at h
  · exact nomatch h
  · exact (Option.some.inj h).symm

end Imported

namespace Universe

variable {u : Universe} {p : ForeignPackage} {root : String} {v : Version}

/-- The package that an entry names belongs to a project. -/
def Deduces (u : Universe) (root : String) (p : ForeignPackage) : Prop :=
  u.rootOf (Text.trimmed p.name) = .ok root

/-- The constraint that the hint of an entry stands for, if it gives one. -/
inductive Hinted (u : Universe) (project : Project) (p : ForeignPackage) : Option Constraint → Prop
  | silent : (∀ text, ¬ Gives p.hint text) → Hinted u project p none
  | stands {text : String} {c : Constraint} : Gives p.hint text →
      (constraintOfHint u.source project text).outcome = .ok c → Hinted u project p (some c)

/-- The version that the revision of an entry is looked up as, in the source that the entry gives
and under the constraint of its hint. -/
def LooksUp (u : Universe) (root : String) (p : ForeignPackage) (v : Version) : Prop :=
  ∃ source hinted revision, (∀ text, source = some text ↔ Gives p.source text) ∧
    u.Hinted ⟨root, source⟩ p hinted ∧ p.revision = some revision ∧
    (pinnedVersion u.source ⟨root, source⟩ hinted ⟨Text.trimmed revision⟩).outcome = .ok v

/-- What is locked for the project of an entry is what the entry asks for. -/
structure Locks (u : Universe) (p : ForeignPackage) (e : LockedProject) : Prop where
  source : ∀ text, e.project.source = some text ↔ Gives p.source text
  version : u.LooksUp e.project.root p e.version
  /-- It is bound to the pinned revision, or it is the branch of the hint. -/
  bound : (∃ revision, p.revision = some revision ∧
    e.version.revision? = some ⟨Text.trimmed revision⟩) ∨
    ∃ hint isDefault, Gives p.hint hint ∧ e.version = .named (.branch hint isDefault)

/-- What a conversion gives, told by the entries of the configuration. -/
structure Converts (u : Universe) (config : ForeignConfig) (c : Conversion) : Prop where
  unlocked : c.lock = none ↔ ∀ p ∈ config.packages, p.revision = none
  /-- The lock is sorted by root, and has no two entries of one root. -/
  ascending : ∀ {lock}, c.lock = some lock → (lock.projects.map (·.project.root)).Pairwise (· < ·)
  locked : ∀ {lock}, c.lock = some lock → ∀ root, root ∈ lock.projects.map (·.project.root) ↔
    ∃ p ∈ config.packages, p.revision.isSome ∧ u.Deduces root p
  locks : ∀ {lock}, c.lock = some lock → ∀ e ∈ lock.projects, ∀ p ∈ config.packages,
    u.Deduces e.project.root p → u.Locks p e
  packages : ∀ {lock}, c.lock = some lock → ∀ e ∈ lock.projects, ∀ relative, relative ∈ e.packages ↔
    ∃ p ∈ config.packages, u.Deduces e.project.root p ∧
      ImportPath.relative? e.project.root (Text.trimmed p.name) = some relative
  ignored : ∀ rule, rule ∈ c.manifest.ignored ↔ rule ∈ config.ignored
  overrides : c.manifest.overrides = .empty
  constrained : ∀ root, c.manifest.constraints.contains root = true ↔
    ∃ p ∈ config.packages, u.Deduces root p ∧ ((∃ hint, Gives p.hint hint) ∨
      (∃ source, Gives p.source source) ∨ ∃ v, u.LooksUp root p v ∧ v.named?.isSome)
  /-- Without a hint the version that is locked is admitted. -/
  admits : ∀ {lock}, c.lock = some lock → ∀ e ∈ lock.projects, ∀ p ∈ config.packages,
    u.Deduces e.project.root p → (∀ hint, ¬ Gives p.hint hint) →
      ∀ {terms}, c.manifest.constraints.get? e.project.root = some terms →
        terms.constraint.admits e.version = true

/-! ## One entry -/

/-- The hint of an entry stands for what it stands for in the pin of the entry. -/
theorem hinted_iff_hints {project : Project} {hinted : Option Constraint} :
    u.Hinted project p hinted ↔ u.Hints project p.pin.hint hinted := by
  rw [Hints, Ask.outcome_mapM_eq_ok_iff]
  constructor
  · rintro (hsilent | ⟨hgives, hout⟩)
    · exact .inl ⟨trimmed?_eq_none_iff.2 hsilent, rfl⟩
    · exact .inr ⟨_, _, trimmed?_eq_some_iff.2 hgives, hout, rfl⟩
  · rintro (⟨hnone, rfl⟩ | ⟨text, c, hsome, hout, rfl⟩)
    · exact .silent (trimmed?_eq_none_iff.1 hnone)
    · exact .stands (trimmed?_eq_some_iff.1 hsome) hout

/-- An entry is looked up by its pin. -/
theorem looksUp_iff : u.LooksUp root p v ↔
    ∃ hinted r, u.Hints ⟨root, p.pin.source⟩ p.pin.hint hinted ∧ p.pin.revision = some r ∧
      (pinnedVersion u.source ⟨root, p.pin.source⟩ hinted ⟨r⟩).outcome = .ok v := by
  constructor
  · rintro ⟨source, hinted, revision, hsource, hhinted, hrevision, hpinned⟩
    obtain rfl := eq_trimmed?_iff.2 hsource
    exact ⟨hinted, _, hinted_iff_hints.1 hhinted,
      congrArg (Option.map Text.trimmed) hrevision, hpinned⟩
  · rintro ⟨hinted, r, hhints, hr, hpinned⟩
    obtain ⟨revision, hrevision, rfl⟩ := Option.map_eq_some_iff.1 hr
    exact ⟨_, hinted, revision, eq_trimmed?_iff.1 rfl, hinted_iff_hints.2 hhints,
      hrevision, hpinned⟩

/-! ## One project -/

theorem revision?_of_looksUp (h : u.LooksUp root p v) :
    (∃ revision, p.revision = some revision ∧ v.revision? = some ⟨Text.trimmed revision⟩) ∨
      ∃ hint isDefault, Gives p.hint hint ∧ v = .named (.branch hint isDefault) := by
  obtain ⟨source, hinted, revision, -, hhinted, hrevision, hpinned⟩ := h
  obtain ⟨listed, -, rfl⟩ := pinnedVersion_ok_iff.1 hpinned
  rcases versionAt_cases listed hinted ⟨Text.trimmed revision⟩ with
    ⟨b, -, hb, heq⟩ | ⟨-, ⟨name, n, hname, hfound, heq⟩ | heq⟩
  · rw [heq]
    exact .inl ⟨revision, hrevision, congrArg some hb⟩
  · rw [heq]
    obtain ⟨isDefault, rfl, -⟩ := exists_of_listedBranch? hfound
    obtain ⟨c, hc, hbranch⟩ := Option.bind_eq_some_iff.1 hname
    cases hhinted with
    | silent => exact nomatch hc
    | stands hgives hout =>
      obtain rfl := Option.some.inj hc
      obtain rfl := eq_of_branch?_constraintOfHint hout hbranch
      exact .inr ⟨_, isDefault, hgives, rfl⟩
  · rw [heq]
    exact .inl ⟨revision, hrevision, rfl⟩

namespace Settles

variable {hinted : Option Constraint} {i : ImportedProject}

/-- A project that was converted has the version that its entries are looked up as. -/
theorem version_eq_iff (h : u.Settles root hinted i) (hpin : i.pin = p.pin) :
    i.version = some v ↔ u.LooksUp root p v := by
  obtain ⟨hhints, hpins, -⟩ := h
  rw [hpin] at hhints hpins
  rw [looksUp_iff]
  constructor
  · intro hv
    rcases Ask.outcome_mapM_eq_ok_iff.1 hpins with ⟨-, hnone⟩ | ⟨r, v', hr, hout, hv'⟩
    · rw [hv] at hnone
      exact nomatch hnone
    · obtain rfl := Option.some.inj (hv.symm.trans hv')
      exact ⟨hinted, r, hhints, hr, hout⟩
  · rintro ⟨hinted', r, hhints', hr, hout⟩
    obtain rfl : hinted = hinted' := Except.ok.inj (hhints.symm.trans hhints')
    have hpins' : u.Pins ⟨root, p.pin.source⟩ hinted p.pin.revision (some v) :=
      Ask.outcome_mapM_eq_ok_iff.2 (.inr ⟨r, v, hr, hout, rfl⟩)
    exact Except.ok.inj (hpins.symm.trans hpins')

/-- A project has a version just if its entries carry a revision. -/
theorem isSome_version_iff (h : u.Settles root hinted i) :
    i.version.isSome ↔ i.pin.revision.isSome := by
  rcases Ask.outcome_mapM_eq_ok_iff.1 h.pins with ⟨hr, hv⟩ | ⟨r, v, hr, -, hv⟩ <;> simp [hr, hv]

theorem isSome_hinted_iff (h : u.Settles root hinted i) : hinted.isSome ↔ i.pin.hint.isSome := by
  rcases Ask.outcome_mapM_eq_ok_iff.1 h.hints with ⟨hh, hc⟩ | ⟨hint, c, hh, -, hc⟩ <;> simp [hh, hc]

/-- A project has terms just if it has a hint or a source, or is locked at a named version. -/
theorem isSome_terms_iff (h : u.Settles root hinted i) :
    i.terms.isSome ↔ i.pin.hint.isSome ∨ i.pin.source.isSome ∨
    (i.version.bind Version.named?).isSome := by
  rw [h.terms, ← h.isSome_hinted_iff]
  cases hinted <;> cases i.pin.source <;> cases i.version.bind Version.named? <;>
    simp [importedTerms?]

/-- Without a hint the terms of a project admit the version that it is locked at. -/
theorem admits {terms : Terms} (h : u.Settles root hinted i) (hhint : i.pin.hint = none)
    (hv : i.version = some v) (hterms : i.terms = some terms) :
    terms.constraint.admits v = true := by
  have hnone : hinted = none := by
    rw [← Option.not_isSome_iff_eq_none, h.isSome_hinted_iff, hhint]
    simp
  rw [h.terms, hnone, hv] at hterms
  cases hn : v.named? with
  | some n =>
    simp only [Option.bind_some, hn, importedTerms?] at hterms
    obtain rfl := Option.some.inj hterms
    exact Constraint.admits_ofNamed hn
  | none =>
    -- only a source was declared
    simp only [Option.bind_some, hn, importedTerms?] at hterms
    split at hterms
    · rename_i hc _
      exact nomatch hc
    · obtain rfl := Option.some.inj hterms
      rfl
    · exact nomatch hterms

end Settles

/-! ## All projects -/

variable {entries : List ForeignPackage} {projects : Depsolve.Imported} {e : LockedProject}

theorem Sums.of_deduces (h : u.Sums entries projects) (hp : p ∈ entries)
    (hdeduces : u.Deduces root p) :
    ∃ i, projects.get? root = some i ∧ i.pin = p.pin ∧ ∃ relative, u.Reads p root relative := by
  obtain ⟨root', relative, i, hr, hi, hpin, -⟩ := h.read p hp
  obtain rfl : root = root' := Except.ok.inj (hdeduces.symm.trans hr.rootOf)
  exact ⟨i, hi, hpin, relative, hr⟩

/-- A project is locked just if one of its entries carries a revision. -/
theorem Sums.exists_version_iff (h : u.Sums entries projects) :
    (∃ i, projects.get? root = some i ∧ i.version.isSome) ↔
      ∃ p ∈ entries, p.revision.isSome ∧ u.Deduces root p := by
  constructor
  · rintro ⟨i, hi, hv⟩
    obtain ⟨p, hp, relative, hr, hpin⟩ := h.exists_entry hi
    obtain ⟨hinted, hsettles⟩ := h.settled hi
    rw [hsettles.isSome_version_iff, hpin] at hv
    exact ⟨p, hp, by simpa [ForeignPackage.pin] using hv, hr.rootOf⟩
  · rintro ⟨p, hp, hrevision, hdeduces⟩
    obtain ⟨i, hi, hpin, -⟩ := h.of_deduces hp hdeduces
    obtain ⟨hinted, hsettles⟩ := h.settled hi
    refine ⟨i, hi, hsettles.isSome_version_iff.2 ?_⟩
    rw [hpin]
    simpa [ForeignPackage.pin] using hrevision

theorem Sums.mem_roots_locked (h : u.Sums entries projects) :
    root ∈ projects.locked.map (·.project.root) ↔ ∃ p ∈ entries, p.revision.isSome ∧
      u.Deduces root p := by
  rw [← h.exists_version_iff, List.mem_map]
  constructor
  · rintro ⟨e, he, rfl⟩
    obtain ⟨i, hi, hv, -⟩ := Imported.mem_locked.1 he
    exact ⟨i, hi, Option.isSome_iff_exists.2 ⟨e.version, hv⟩⟩
  · rintro ⟨i, hi, hv⟩
    obtain ⟨v, hv⟩ := Option.isSome_iff_exists.1 hv
    exact ⟨⟨⟨root, i.pin.source⟩, v, i.packages⟩, Imported.mem_locked.2 ⟨i, hi, hv, rfl, rfl⟩, rfl⟩

theorem Sums.locked_eq_nil_iff (h : u.Sums entries projects) :
    projects.locked = [] ↔ ∀ p ∈ entries, p.revision = none := by
  rw [← List.map_eq_nil_iff (f := (·.project.root)), List.eq_nil_iff_forall_not_mem]
  constructor
  · intro hno p hp
    obtain ⟨root, relative, i, hr, -⟩ := h.read p hp
    refine Option.not_isSome_iff_eq_none.1 fun hsome => ?_
    exact hno root (h.mem_roots_locked.2 ⟨p, hp, hsome, hr.rootOf⟩)
  · intro hnone root hroot
    obtain ⟨p, hp, hsome, -⟩ := h.mem_roots_locked.1 hroot
    rw [hnone p hp] at hsome
    exact nomatch hsome

/-- A project that is locked is one that was converted, with the pin of each of its entries. -/
theorem Sums.of_locked (h : u.Sums entries projects) (he : e ∈ projects.locked) (hp : p ∈ entries)
    (hdeduces : u.Deduces e.project.root p) :
    ∃ i hinted, projects.get? e.project.root = some i ∧ u.Settles e.project.root hinted i ∧
      i.version = some e.version ∧ e.project.source = i.pin.source ∧ i.pin = p.pin := by
  obtain ⟨i, hi, hv, hsource, -⟩ := Imported.mem_locked.1 he
  obtain ⟨i', hi', hpin, -⟩ := h.of_deduces hp hdeduces
  obtain rfl := Option.some.inj (hi.symm.trans hi')
  obtain ⟨hinted, hsettles⟩ := h.settled hi
  exact ⟨i, hinted, hi, hsettles, hv, hsource, hpin⟩

/-- What is locked for a project is what each of its entries asks for. -/
theorem Sums.locks (h : u.Sums entries projects) (he : e ∈ projects.locked) (hp : p ∈ entries)
    (hdeduces : u.Deduces e.project.root p) : u.Locks p e := by
  obtain ⟨i, hinted, -, hsettles, hv, hsource, hpin⟩ := h.of_locked he hp hdeduces
  have hlooks := (hsettles.version_eq_iff hpin).1 hv
  have hgives := hsource.trans (congrArg Pin.source hpin)
  exact ⟨eq_trimmed?_iff.1 hgives, hlooks, revision?_of_looksUp hlooks⟩

theorem Sums.mem_packages_locked_iff (h : u.Sums entries projects) (he : e ∈ projects.locked)
    {relative : String} : relative ∈ e.packages ↔ ∃ p ∈ entries, u.Deduces e.project.root p ∧
      ImportPath.relative? e.project.root (Text.trimmed p.name) = some relative := by
  obtain ⟨i, hi, -, -, hpackages⟩ := Imported.mem_locked.1 he
  rw [hpackages, h.mem_packages_iff hi]
  constructor
  · rintro ⟨p, hp, hr⟩
    exact ⟨p, hp, hr.rootOf, hr.relative⟩
  · rintro ⟨p, hp, hdeduces, hrelative⟩
    obtain ⟨-, -, -, relative', hr⟩ := h.of_deduces hp hdeduces
    obtain rfl := Option.some.inj (hrelative.symm.trans hr.relative)
    exact ⟨p, hp, hr⟩

/-- A project has terms just if one of its entries gives a hint, a source or a revision with a
name. -/
theorem Sums.isSome_terms_iff (h : u.Sums entries projects) :
    (projects.terms.get? root).isSome ↔ ∃ p ∈ entries, u.Deduces root p ∧
      ((∃ hint, Gives p.hint hint) ∨
      (∃ source, Gives p.source source) ∨ ∃ v, u.LooksUp root p v ∧ v.named?.isSome) := by
  simp only [← isSome_trimmed?_iff]
  rw [Imported.get?_terms]
  constructor
  · intro hsome
    obtain ⟨terms, hterms⟩ := Option.isSome_iff_exists.1 hsome
    obtain ⟨i, hi, hterms⟩ := Option.bind_eq_some_iff.1 hterms
    obtain ⟨p, hp, relative, hr, hpin⟩ := h.exists_entry hi
    obtain ⟨hinted, hsettles⟩ := h.settled hi
    refine ⟨p, hp, hr.rootOf, ?_⟩
    have hgives := hsettles.isSome_terms_iff.1 (Option.isSome_iff_exists.2 ⟨terms, hterms⟩)
    rw [hpin] at hgives
    refine hgives.imp_right fun hgives => hgives.imp_right fun hn => ?_
    obtain ⟨n, hn⟩ := Option.isSome_iff_exists.1 hn
    obtain ⟨v, hv, hn⟩ := Option.bind_eq_some_iff.1 hn
    exact ⟨v, (hsettles.version_eq_iff hpin).1 hv, Option.isSome_iff_exists.2 ⟨n, hn⟩⟩
  · rintro ⟨p, hp, hdeduces, hgives⟩
    obtain ⟨i, hi, hpin, -⟩ := h.of_deduces hp hdeduces
    obtain ⟨hinted, hsettles⟩ := h.settled hi
    rw [hi, Option.bind_some, hsettles.isSome_terms_iff, hpin]
    refine hgives.imp_right fun hgives => hgives.imp_right ?_
    rintro ⟨v, hlooks, hn⟩
    rw [(hsettles.version_eq_iff hpin).2 hlooks]
    exact hn

theorem Sums.admits (h : u.Sums entries projects) (he : e ∈ projects.locked) (hp : p ∈ entries)
    (hdeduces : u.Deduces e.project.root p) (hsilent : ∀ hint, ¬ Gives p.hint hint) {terms : Terms}
    (hterms : projects.terms.get? e.project.root = some terms) :
    terms.constraint.admits e.version = true := by
  obtain ⟨i, hinted, hi, hsettles, hv, -, hpin⟩ := h.of_locked he hp hdeduces
  rw [Imported.get?_terms, hi] at hterms
  exact hsettles.admits (hpin ▸ trimmed?_eq_none_iff.2 hsilent) hv hterms

theorem Sums.converts {config : ForeignConfig} (h : u.Sums config.packages projects) :
    u.Converts config (projects.conversion (.ofList config.ignored)) where
  unlocked := Imported.conversion_lock_eq_none_iff.trans h.locked_eq_nil_iff
  ascending hlock := by
    rw [Imported.eq_of_conversion_lock hlock]
    exact Imported.locked_ascending
  locked hlock root := by
    rw [Imported.eq_of_conversion_lock hlock]
    exact h.mem_roots_locked
  locks hlock e he p hp hdeduces := by
    rw [Imported.eq_of_conversion_lock hlock] at he
    exact h.locks he hp hdeduces
  packages hlock e he relative := by
    rw [Imported.eq_of_conversion_lock hlock] at he
    exact h.mem_packages_locked_iff he
  ignored rule := SortedSet.mem_ofList
  overrides := rfl
  constrained root := h.isSome_terms_iff
  admits hlock e he p hp hdeduces hsilent terms hterms := by
    rw [Imported.eq_of_conversion_lock hlock] at he
    exact h.admits he hp hdeduces hsilent hterms

end Universe

/-- What a conversion gives, in whatever session over a universe it succeeds. -/
theorem Session.converts_of_convert {u : Universe} {steady : Prop} {s : Session}
    (hs : s.Serves u steady) {config : ForeignConfig} {c : Conversion}
    (h : ((convert source config).run.run s).1 = .ok c) : u.Converts config c := by
  obtain ⟨-, projects, hsums, rfl⟩ := Universe.convert_ok_iff.1 (outcome_of_convert hs h)
  exact hsums.converts

/-- A configuration that pins one project at a revision where nothing is listed, with a branch for a
hint, and another one in a source of its own. There is white space around what it says, and some
fields are blank. -/
def ForeignConfig.branched : ForeignConfig :=
  ⟨["example.com/old"],
    [⟨"example.com/tool", some "", some " main ", some " c9 "⟩,
      ⟨"example.com/lib", some " example.com/fork ", some " ", some " b1"⟩,
      ⟨" example.com/tool/cmd", none, some "main", some "c9"⟩]⟩

/-- What it is converted to: a lock with a bound tag and with a branch, and terms for
both projects. -/
def Lock.branched : Lock :=
  ⟨[⟨⟨"example.com/lib", some "example.com/fork"⟩, .bound ⟨.plain "nightly", ⟨"b1"⟩⟩,
      .ofList ["."]⟩,
    ⟨⟨"example.com/tool", none⟩, .named (.branch "main" true), .ofList [".", "cmd"]⟩],
    none⟩

theorem Session.converts_of_branched :
    ∃ c, ((convert source .branched).run.run (.start (.new .withReleases))).1 = .ok c ∧
      c.lock = some .branched ∧
      c.manifest.constraints.entries =
        [("example.com/lib", ⟨some "example.com/fork", .plain "nightly"⟩),
        ("example.com/tool", ⟨none, .branch "main"⟩)] ∧
      Universe.withReleases.Converts .branched c := by
  have hmade :
      (((convert source .branched).run.run (.start (.new .withReleases))).1.toOption.map fun c =>
      (c.lock, c.manifest.constraints.entries)) =
      some (some .branched, [("example.com/lib", ⟨some "example.com/fork", .plain "nightly"⟩),
        ("example.com/tool", ⟨none, .branch "main"⟩)]) := by
    decide +kernel
  obtain ⟨c, h, hfiles⟩ := exists_of_map_toOption hmade
  obtain ⟨hlocked, hconstraints⟩ := Prod.mk.inj hfiles
  exact ⟨c, h, hlocked, hconstraints, converts_of_convert serves_withReleases h⟩

end Depsolve
