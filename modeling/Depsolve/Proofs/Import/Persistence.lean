import Depsolve.Proofs.Import.Summary
import Depsolve.Proofs.Lock.File
import Depsolve.Proofs.Text.Trimming

/-!
# Conversions on disk

What a conversion gives is written to disk and read back on the next run. The lock is read back as
it was, up to the flags of branches. The manifest is if none of its plain tags reads as a range or
has white space around it (`Session.readsBack_of_convert`): hints are classified by how they look,
texts in a manifest by whether they read as ranges, and the two do not always agree.
-/

namespace Depsolve

/-! ## Texts -/

theorem trimmed?_ne_empty (text : Option String) : trimmed? text ≠ some "" := by
  intro h
  exact of_decide_eq_true (Option.filter_eq_some_iff.1 h).2 rfl

theorem Manifest.checkIgnored_of_checkRule {rule : String} (h : checkRule rule = .ok ()) :
    checkIgnored rule = .ok () := by
  unfold checkRule at h
  dsimp only at h
  split at h
  · rename_i hvalid
    exact if_pos hvalid
  · exact nomatch h

namespace Universe

variable {u : Universe} {root : String} {p : ForeignPackage} {v : Version}

/-- The plain tags that are listed do not read as semver tags. -/
theorem ofTag_of_mem_versions {project : Project} {listed : List Bound}
    (h : u.versions project = .ok listed) {b : Bound} (hb : b ∈ listed) {tag : String}
    (hn : b.named = .plain tag) : Named.ofTag tag = .plain tag := by
  obtain ⟨snapshots, -, rfl⟩ := versions_eq_ok_iff.1 h
  obtain ⟨s, -, hs⟩ := List.mem_filterMap.1 hb
  obtain ⟨n, hnamed, rfl⟩ := Option.map_eq_some_iff.1 hs
  obtain rfl : n = .plain tag := hn
  rw [s.named_eq] at hnamed
  cases hlabel : s.label with
  | tag text =>
    rw [hlabel] at hnamed
    have hread := Option.some.inj hnamed
    rwa [Named.eq_of_ofTag hread] at hread
  | branch name isDefault =>
    rw [hlabel] at hnamed
    exact nomatch hnamed
  | commit =>
    rw [hlabel] at hnamed
    exact nomatch hnamed

theorem ofTag_of_looksUp (h : u.LooksUp root p v) {tag : String}
    (hn : v.named? = some (.plain tag)) : Named.ofTag tag = .plain tag := by
  obtain ⟨source, hinted, revision, -, -, -, hpinned⟩ := h
  obtain ⟨listed, hlisted, rfl⟩ := pinnedVersion_ok_iff.1 hpinned
  rcases versionAt_cases listed hinted ⟨Text.trimmed revision⟩ with ⟨b, hb, -, heq⟩ |
    ⟨-, ⟨name, n, -, hfound, heq⟩ | heq⟩
  · rw [heq] at hn
    exact ofTag_of_mem_versions hlisted hb (Option.some.inj hn)
  · rw [heq] at hn
    obtain ⟨isDefault, rfl, -⟩ := exists_of_listedBranch? hfound
    exact nomatch hn
  · rw [heq] at hn
    exact nomatch hn

/-! ## Constraints -/

/-- The constraints that conversions declare: no revisions, and only ranges that can be read. -/
inductive Declares : Constraint → Prop
  | any : Declares .any
  | branch (name : String) : Declares (.branch name)
  | plain (tag : String) : Declares (.plain tag)
  | semver {range : Range} : range.Proper → Declares (.semver range)

theorem Declares.ofNamed (n : Named) : Declares (Constraint.ofNamed n) := by
  cases n with
  | branch name isDefault => exact .branch name
  | plain tag => exact .plain tag
  | semver tag => exact .semver (Range.proper_caret tag)

theorem Declares.ofHint {project : Project} {hint : String} {c : Constraint}
    (h : (constraintOfHint u.source project hint).outcome = .ok c) : Declares c := by
  rcases constraintOfHint_cases h with ⟨tag, -, rfl⟩ | ⟨range, -, hread, rfl⟩ | ⟨-, rfl | rfl⟩
  · exact .semver (Range.proper_caret tag)
  · exact .semver (Range.proper_of_read hread)
  · exact .branch hint
  · exact .plain hint

theorem Settles.declares {hinted : Option Constraint} {i : ImportedProject}
    (h : u.Settles root hinted i) {t : Terms} (ht : i.terms = some t) :
    t.source = i.pin.source ∧ Declares t.constraint := by
  have hhinted : ∀ c, hinted = some c → Declares c := by
    rintro c rfl
    rcases Ask.outcome_mapM_eq_ok_iff.1 h.hints with ⟨-, hnone⟩ | ⟨hint, c', -, hout, hc⟩
    · exact nomatch hnone
    · obtain rfl := Option.some.inj hc
      exact .ofHint hout
  have hdeclared : ∀ c, (hinted <|> (i.version.bind Version.named?).map Constraint.ofNamed) =
      some c → Declares c := by
    intro c hc
    cases hinted with
    | some c' => exact hhinted c hc
    | none =>
      obtain ⟨n, -, rfl⟩ := Option.map_eq_some_iff.1 hc
      exact .ofNamed n
  rw [h.terms] at ht
  unfold importedTerms? at ht
  split at ht <;> cases ht
  · rename_i c hc
    exact ⟨rfl, hdeclared c hc⟩
  · exact ⟨rfl, .any⟩

/-- Terms that a conversion declares are read back just if their plain tag, if it is one, is. -/
theorem Declares.persistent_iff {t : Terms} (h : Declares t.constraint)
    (hsource : t.source ≠ some "") :
    t.Persistent ↔ ∀ tag, t.constraint = .plain tag →
      Text.trimmed tag = tag ∧ ∀ range, Range.read tag ≠ .ok range := by
  refine ⟨fun hpersistent => hpersistent.plain, fun hplain =>
    ⟨hsource, fun r hr => ?_, hplain, fun range hrange => ?_⟩⟩
  · rw [hr] at h
    exact nomatch h
  · rw [hrange] at h
    obtain ⟨⟩ | ⟨⟩ | ⟨⟩ | hproper := h
    exact Range.read_toText hproper

/-! ## All projects -/

namespace Sums

variable {entries : List ForeignPackage} {projects : Depsolve.Imported} {i : ImportedProject}

theorem mem_roots (h : u.Sums entries projects) (hi : projects.get? root = some i) :
    root ∈ u.projects.keys ++ u.unreachable.toList := by
  obtain ⟨p, -, relative, hr, -⟩ := h.exists_entry hi
  exact mem_roots_of_rootOf hr.rootOf

theorem source_ne_empty (h : u.Sums entries projects) (hi : projects.get? root = some i) :
    i.pin.source ≠ some "" := by
  obtain ⟨p, -, relative, -, hpin⟩ := h.exists_entry hi
  rw [hpin]
  exact trimmed?_ne_empty p.source

theorem isValid_of_terms (h : u.Sums entries projects)
    (hroots : ∀ root ∈ u.projects.keys ++ u.unreachable.toList, ImportPath.isValid root = true)
    {t : Terms} (ht : projects.terms.get? root = some t) : ImportPath.isValid root = true := by
  rw [Imported.get?_terms] at ht
  obtain ⟨i, hi, -⟩ := Option.bind_eq_some_iff.1 ht
  exact hroots root (h.mem_roots hi)

theorem persistent_terms_iff (h : u.Sums entries projects) {t : Terms}
    (ht : projects.terms.get? root = some t) :
    t.Persistent ↔ ∀ tag, t.constraint = .plain tag →
      Text.trimmed tag = tag ∧ ∀ range, Range.read tag ≠ .ok range := by
  rw [Imported.get?_terms] at ht
  obtain ⟨i, hi, ht⟩ := Option.bind_eq_some_iff.1 ht
  obtain ⟨hinted, hsettles⟩ := h.settled hi
  obtain ⟨hsource, hdeclares⟩ := hsettles.declares ht
  exact hdeclares.persistent_iff (hsource ▸ h.source_ne_empty hi)

theorem persistent_locked (h : u.Sums entries projects)
    (hroots : ∀ root ∈ u.projects.keys ++ u.unreachable.toList, ImportPath.isValid root = true)
    {e : LockedProject} (he : e ∈ projects.locked) : e.Persistent := by
  obtain ⟨i, hi, -, hsource, -⟩ := Imported.mem_locked.1 he
  obtain ⟨p, hp, relative, hr, -⟩ := h.exists_entry hi
  have hlooks := (h.locks he hp hr.rootOf).version
  refine ⟨hroots _ (h.mem_roots hi), hsource ▸ h.source_ne_empty hi, fun r hrev => ?_,
    fun tag hn => ofTag_of_looksUp hlooks hn⟩
  rcases revision?_of_looksUp hlooks with ⟨hash, hrevision, hpinned⟩ | ⟨hint, isDefault, -, heq⟩
  · obtain rfl := Option.some.inj (hrev.symm.trans hpinned)
    have hpin : p.pin.revision = some (Text.trimmed hash) :=
      congrArg (Option.map Text.trimmed) hrevision
    have hne : Text.trimmed hash ≠ "" := fun hempty => hr.pinned (hpin.trans (congrArg some hempty))
    exact ⟨Text.isBlankText_trimmed hne, Text.trimmed_trimmed hash⟩
  · rw [heq] at hrev
    exact nomatch hrev

/-- The manifest of a conversion is read back just if its plain tags are. -/
theorem ofText_toText_iff (h : u.Sums entries projects)
    (hroots : ∀ root ∈ u.projects.keys ++ u.unreachable.toList, ImportPath.isValid root = true)
    {rules : List String} (hrules : ∀ rule ∈ rules, checkRule rule = .ok ())
    (hreads : Toml.ReadsBack (projects.conversion (.ofList rules)).manifest.toFile.document) :
    Manifest.ofText (projects.conversion (.ofList rules)).manifest.toText =
        .ok (projects.conversion (.ofList rules)).manifest ↔
      ∀ root terms tag, projects.terms.get? root = some terms → terms.constraint = .plain tag →
        Text.trimmed tag = tag ∧ ∀ range, Range.read tag ≠ .ok range := by
  rw [Manifest.ofText_toText hreads, Manifest.ofFile_toFile_iff]
  constructor
  · rintro ⟨-, hconstraints, -⟩ root terms tag ht
    exact (h.persistent_terms_iff ht).1 (hconstraints root terms ht).2 tag
  · intro hplain
    refine ⟨fun rule hrule => ?_, fun root terms ht => ?_, fun root terms ht => ?_⟩
    · exact Manifest.checkIgnored_of_checkRule (hrules rule (SortedSet.mem_ofList.1 hrule))
    · exact ⟨h.isValid_of_terms hroots ht,
        (h.persistent_terms_iff ht).2 fun tag => hplain root terms tag ht⟩
    · exact nomatch ht

end Sums

end Universe

/-- Over a universe with valid roots, the lock of a conversion is read back as the same lock, and
the manifest is read back as it was just if no plain tag that it declares reads as a range or has
white space around it. It is taken for granted that the documents that are written are read back. -/
theorem Session.readsBack_of_convert {u : Universe} {steady : Prop} {s : Session}
    (hs : s.Serves u steady)
    (hroots : ∀ root ∈ u.projects.keys ++ u.unreachable.toList, ImportPath.isValid root = true)
    {config : ForeignConfig} {c : Conversion} (h : ((convert source config).run.run s).1 = .ok c)
    (hmanifest : Toml.ReadsBack c.manifest.toFile.document)
    (hlock : ∀ lock, c.lock = some lock → Toml.ReadsBack lock.toFile.document) :
    (Manifest.ofText c.manifest.toText = .ok c.manifest ↔
      ∀ root terms tag, c.manifest.constraints.get? root = some terms →
        terms.constraint = .plain tag →
        Text.trimmed tag = tag ∧ ∀ range, Range.read tag ≠ .ok range) ∧
    ∀ lock, c.lock = some lock → ∃ text lock', lock.toText = .ok text ∧
      Lock.ofText text = .ok lock' ∧ lock'.same lock = true := by
  obtain ⟨hrules, projects, hsums, rfl⟩ := Universe.convert_ok_iff.1 (outcome_of_convert hs h)
  refine ⟨hsums.ofText_toText_iff hroots hrules hmanifest, fun lock hmade => ?_⟩
  have hreads := hlock lock hmade
  obtain rfl := Imported.eq_of_conversion_lock hmade
  exact Lock.exists_ofText_toText (fun _ hm => nomatch hm)
    (List.pairwise_map.1 Imported.locked_ascending)
    (fun _ he => hsums.persistent_locked hroots he) hreads

/-- A configuration that pins two packages of a project at the revision of a plain tag. -/
def ForeignConfig.nightly : ForeignConfig :=
  ⟨["example.com/old"], [⟨"example.com/lib", some "example.com/fork", none, some "b1"⟩,
    ⟨"example.com/lib/cmd", some "example.com/fork", none, some " b1"⟩]⟩

theorem Session.readsBack_of_nightly :
    ∃ c lock text lock', ((convert source .nightly).run.run (.start (.new .withReleases))).1 =
      .ok c ∧ Manifest.ofText c.manifest.toText = .ok c.manifest ∧
      c.lock = some lock ∧ lock.toText = .ok text ∧ Lock.ofText text = .ok lock' ∧
      lock'.same lock = true := by
  have hroots : ∀ root ∈ Universe.withReleases.projects.keys ++
      Universe.withReleases.unreachable.toList,
      ImportPath.isValid root = true := by decide +kernel
  have hmade :
      (((convert source .nightly).run.run (.start (.new .withReleases))).1.toOption.map fun c =>
      (c.manifest.constraints.entries, decide (Toml.ReadsBack c.manifest.toFile.document),
        c.lock.map fun lock => decide (Toml.ReadsBack lock.toFile.document))) =
      some ([("example.com/lib", ⟨some "example.com/fork", .plain "nightly"⟩)], true,
        some true) := by
    decide +kernel
  obtain ⟨c, h, hfiles⟩ := exists_of_map_toOption hmade
  obtain ⟨hentries, hfiles⟩ := Prod.mk.inj hfiles
  obtain ⟨hmanifest, hlocked⟩ := Prod.mk.inj hfiles
  obtain ⟨lock, hlock, hreads⟩ := Option.map_eq_some_iff.1 hlocked
  have hlockReads : ∀ lock, c.lock = some lock → Toml.ReadsBack lock.toFile.document := by
    intro lock' hlock'
    obtain rfl := Option.some.inj (hlock.symm.trans hlock')
    exact of_decide_eq_true hreads
  obtain ⟨hback, hlockBack⟩ :=
    readsBack_of_convert serves_withReleases hroots h (of_decide_eq_true hmanifest) hlockReads
  obtain ⟨text, lock', htext, hread, hsame⟩ := hlockBack lock hlock
  refine ⟨c, lock, text, lock', h, hback.2 fun root terms tag hterms htagged => ?_, hlock,
    htext, hread, hsame⟩
  -- the one constraint is the plain tag
  have hmem := SortedMap.get?_eq_some_iff.1 hterms
  rw [hentries] at hmem
  obtain ⟨rfl, rfl⟩ := Prod.mk.inj (List.mem_singleton.1 hmem)
  obtain rfl := Constraint.plain.inj htagged
  exact ⟨by decide +kernel, ne_ok_of_toOption (by decide +kernel)⟩

/-- A configuration with a hint that is a range and does not look like one. -/
def ForeignConfig.wildcard : ForeignConfig :=
  ⟨[], [⟨"example.com/tool", none, some "1.2.*", none⟩]⟩

/-- The hint is converted to a plain tag, and that is read as a range. -/
theorem Session.not_readsBack_of_wildcard :
    (∀ root ∈ Universe.withReleases.projects.keys ++ Universe.withReleases.unreachable.toList,
      ImportPath.isValid root = true) ∧
    ∃ c m, ((convert source .wildcard).run.run (.start (.new .withReleases))).1 = .ok c ∧
      Toml.ReadsBack c.manifest.toFile.document ∧
      Manifest.ofText c.manifest.toText = .ok m ∧ m ≠ c.manifest := by
  refine ⟨by decide +kernel, ?_⟩
  have hmade :
      (((convert source .wildcard).run.run (.start (.new .withReleases))).1.toOption.map fun c =>
      (decide (Toml.ReadsBack c.manifest.toFile.document),
        (Manifest.ofText c.manifest.toText).toOption.map fun m => decide (m = c.manifest))) =
      some (true, some false) := by
    decide +kernel
  obtain ⟨c, h, hfile⟩ := exists_of_map_toOption hmade
  obtain ⟨hmanifest, hread⟩ := Prod.mk.inj hfile
  obtain ⟨m, hm, hne⟩ := exists_of_map_toOption hread
  exact ⟨c, m, h, of_decide_eq_true hmanifest, hm, of_decide_eq_false hne⟩

end Depsolve
