import Depsolve.Proofs.ImportPath.Segments
import Depsolve.Universe.Basic

/-!
# What the answers of a universe depend on

The published state that a version means, and with it the manifest and the packages of the version,
depends on little: not on the flag of a branch, and, for a version with a revision, on the revision
alone. Of the project only the root and the location count.
-/

namespace Depsolve

namespace Named

@[simp]
theorem name_canonical (n : Named) : n.canonical.name = n.name := by
  cases n <;> rfl

theorem agrees_canonical_right (m n : Named) : m.agrees n.canonical = m.agrees n := by
  cases m <;> cases n <;> rfl

theorem agrees_canonical_left (m n : Named) : m.canonical.agrees n = m.agrees n := by
  cases m <;> cases n <;> rfl

end Named

namespace Version

@[simp]
theorem toText_canonical (v : Version) : v.canonical.toText = v.toText := by
  cases v <;> simp [canonical, toText, Bound.canonical]

@[simp]
theorem revision?_canonical (v : Version) : v.canonical.revision? = v.revision? := by
  cases v <;> rfl

theorem agrees_canonical (v w : Version) : v.agrees w.canonical = v.agrees w := by
  cases v <;> cases w <;>
    simp [canonical, agrees, Bound.canonical, Named.agrees_canonical_right,
      Named.agrees_canonical_left]

theorem revision?_eq_of_same {v w : Version} (h : v.same w = true) : v.revision? = w.revision? := by
  have hc : v.canonical = w.canonical := by simpa [same] using h
  rw [← revision?_canonical v, hc, revision?_canonical]

end Version

/-- A constraint does not look at the flag of a branch. -/
theorem Constraint.admits_canonical (c : Constraint) (v : Version) :
    c.admits v.canonical = c.admits v := by
  cases c with
  | any => rfl
  | revision r => simp [admits]
  | branch name => rcases v with _ | (_ | _ | _) | ⟨_ | _ | _, _⟩ <;> rfl
  | plain tag => rcases v with _ | (_ | _ | _) | ⟨_ | _ | _, _⟩ <;> rfl
  | semver range => rcases v with _ | (_ | _ | _) | ⟨_ | _ | _, _⟩ <;> rfl

theorem Constraint.admits_eq_of_same (c : Constraint) {v w : Version} (h : v.same w = true) :
    c.admits v = c.admits w := by
  have hc : v.canonical = w.canonical := by simpa [Version.same] using h
  rw [← admits_canonical c v, hc, admits_canonical]

namespace Snapshot

theorem answers_canonical (s : Snapshot) (v : Version) : s.answers v.canonical = s.answers v := by
  simp only [answers]
  split
  · rw [Version.agrees_canonical]
  · rw [Version.revision?_canonical]

/-- A version with a revision means a state by that revision. -/
theorem answers_iff_of_revision {s : Snapshot} {v : Version} {r : Revision}
    (h : v.revision? = some r) : s.answers v = true ↔ s.revision = r := by
  unfold answers bound?
  cases hn : s.named with
  | none =>
    simp only [Option.map_none, h, Option.some.injEq, decide_eq_true_eq]
    exact eq_comm
  | some n =>
    cases v with
    | revision r' =>
      obtain rfl : r' = r := by simpa [Version.revision?] using h
      simp [Version.agrees]
    | named n' => simp [Version.revision?] at h
    | bound b =>
      obtain rfl : b.revision = r := by simpa [Version.revision?] using h
      simp [Version.agrees]

end Snapshot

namespace Universe

variable {u : Universe}

theorem snapshot_canonical (u : Universe) (p : Project) (v : Version) :
    u.snapshot p v.canonical = u.snapshot p v := by
  have h : (fun s : Snapshot => s.answers v.canonical) = fun s => s.answers v :=
    funext fun s => s.answers_canonical v
  simp only [snapshot, h, Version.toText_canonical]

theorem manifestOf_canonical (u : Universe) (p : Project) (v : Version) :
    u.manifestOf p v.canonical = u.manifestOf p v := by
  rw [manifestOf, snapshot_canonical, manifestOf]

theorem packagesOf_canonical (u : Universe) (p : Project) (v : Version) :
    u.packagesOf p v.canonical = u.packagesOf p v := by
  rw [packagesOf, snapshot_canonical, packagesOf]

theorem snapshots_congr (u : Universe) {p q : Project} (hroot : p.root = q.root)
    (hloc : p.location = q.location) : u.snapshots p = u.snapshots q := by
  simp only [snapshots, hroot, hloc]

theorem versions_congr (u : Universe) {p q : Project} (hroot : p.root = q.root)
    (hloc : p.location = q.location) : u.versions p = u.versions q := by
  rw [versions, snapshots_congr u hroot hloc, versions]

theorem hasRevision_congr (u : Universe) {p q : Project} (r : Revision) (hroot : p.root = q.root)
    (hloc : p.location = q.location) : u.hasRevision p r = u.hasRevision q r := by
  rw [hasRevision, snapshots_congr u hroot hloc, hasRevision]

theorem snapshot_eq_ok_iff {p : Project} {v : Version} {s : Snapshot} :
    u.snapshot p v = .ok s ↔
      ∃ snapshots, u.snapshots p = .ok snapshots ∧ snapshots.find? (·.answers v) = some s := by
  unfold snapshot
  cases hs : u.snapshots p with
  | error e => simp [bind, Except.bind]
  | ok snapshots =>
    simp only [bind, Except.bind]
    cases hf : snapshots.find? (·.answers v) <;> simp [hf, pure, Except.pure, throw, throwThe,
      MonadExceptOf.throw]

/-- Versions of one revision mean the same state, under each name of a location. -/
theorem snapshot_congr {p q : Project} {v w : Version} {s : Snapshot} {r : Revision}
    (hroot : p.root = q.root) (hloc : p.location = q.location) (hv : v.revision? = some r)
    (hw : w.revision? = some r) (h : u.snapshot p v = .ok s) : u.snapshot q w = .ok s := by
  obtain ⟨snapshots, hs, hf⟩ := snapshot_eq_ok_iff.1 h
  refine snapshot_eq_ok_iff.2 ⟨snapshots, ?_, ?_⟩
  · rw [← hs, snapshots_congr u hroot hloc]
  · rw [← hf]
    congr 1
    funext s'
    rw [Bool.eq_iff_iff, Snapshot.answers_iff_of_revision hv, Snapshot.answers_iff_of_revision hw]

theorem packagesOf_eq_ok_iff {p : Project} {v : Version} {tree : PackageTree} :
    u.packagesOf p v = .ok tree ↔ ∃ s, u.snapshot p v = .ok s ∧ s.tree p.root = tree := by
  unfold packagesOf
  cases u.snapshot p v <;> simp [Except.map]

theorem manifestOf_eq_ok_iff {p : Project} {v : Version} {m : Manifest} :
    u.manifestOf p v = .ok m ↔ ∃ s, u.snapshot p v = .ok s ∧ s.manifest = m := by
  unfold manifestOf
  cases u.snapshot p v <;> simp [Except.map]

theorem packagesOf_congr {p q : Project} {v w : Version} {tree : PackageTree} {r : Revision}
    (hroot : p.root = q.root) (hloc : p.location = q.location) (hv : v.revision? = some r)
    (hw : w.revision? = some r) (h : u.packagesOf p v = .ok tree) :
    u.packagesOf q w = .ok tree := by
  obtain ⟨s, hs, ht⟩ := packagesOf_eq_ok_iff.1 h
  exact packagesOf_eq_ok_iff.2 ⟨s, snapshot_congr hroot hloc hv hw hs, by rw [← hroot, ht]⟩

theorem manifestOf_congr {p q : Project} {v w : Version} {m : Manifest} {r : Revision}
    (hroot : p.root = q.root) (hloc : p.location = q.location) (hv : v.revision? = some r)
    (hw : w.revision? = some r) (h : u.manifestOf p v = .ok m) : u.manifestOf q w = .ok m := by
  obtain ⟨s, hs, hm⟩ := manifestOf_eq_ok_iff.1 h
  exact manifestOf_eq_ok_iff.2 ⟨s, snapshot_congr hroot hloc hv hw hs, hm⟩

theorem exists_manifestOf {p : Project} {v : Version} {tree : PackageTree}
    (h : u.packagesOf p v = .ok tree) : ∃ m, u.manifestOf p v = .ok m := by
  obtain ⟨s, hs, -⟩ := packagesOf_eq_ok_iff.1 h
  exact ⟨s.manifest, manifestOf_eq_ok_iff.2 ⟨s, hs, rfl⟩⟩

/-- The published states of all projects. -/
def published (u : Universe) : List Snapshot :=
  u.projects.values.flatten

/-- A project is served from the published states of one root. -/
theorem mem_projects_of_snapshots {p : Project} {snapshots : List Snapshot}
    (h : u.snapshots p = .ok snapshots) : ∃ root, (root, snapshots) ∈ u.projects.entries := by
  unfold Universe.snapshots at h
  split at h
  · simp at h
  · split at h
    · rename_i found hfound
      obtain rfl : found = snapshots := by simpa using h
      cases hl : u.projects.get? p.location with
      | none => exact ⟨p.root, SortedMap.get?_eq_some_iff.1 (by simpa [hl] using hfound)⟩
      | some l =>
        refine ⟨p.location, SortedMap.get?_eq_some_iff.1 ?_⟩
        rw [hl]
        simpa [hl] using hfound
    · simp at h

theorem mem_published_of_snapshots {p : Project} {snapshots : List Snapshot} {s : Snapshot}
    (h : u.snapshots p = .ok snapshots) (hs : s ∈ snapshots) : s ∈ u.published := by
  obtain ⟨root, hroot⟩ := mem_projects_of_snapshots h
  exact List.mem_flatten.2 ⟨snapshots, List.mem_map.2 ⟨_, hroot, rfl⟩, hs⟩

theorem mem_published_of_snapshot {p : Project} {v : Version} {s : Snapshot}
    (h : u.snapshot p v = .ok s) : s ∈ u.published := by
  obtain ⟨snapshots, hs, hf⟩ := snapshot_eq_ok_iff.1 h
  exact mem_published_of_snapshots hs (List.mem_of_find?_eq_some hf)

theorem versions_eq_ok_iff {p : Project} {versions : List Bound} :
    u.versions p = .ok versions ↔
      ∃ snapshots, u.snapshots p = .ok snapshots ∧
        snapshots.filterMap Snapshot.bound? = versions := by
  unfold Universe.versions
  cases u.snapshots p <;> simp [Except.map]

theorem hasRevision_eq_ok_iff {p : Project} {r : Revision} {b : Bool} :
    u.hasRevision p r = .ok b ↔
      ∃ snapshots, u.snapshots p = .ok snapshots ∧ (snapshots.any fun s => s.revision = r) = b := by
  unfold Universe.hasRevision
  cases u.snapshots p <;> simp [Except.map]

theorem revision_of_bound? {s : Snapshot} {b : Bound} (h : s.bound? = some b) :
    s.revision = b.revision := by
  unfold Snapshot.bound? at h
  obtain ⟨n, -, rfl⟩ := Option.map_eq_some_iff.1 h
  rfl

/-- The revision of a listed version is there. -/
theorem hasRevision_of_mem_versions {p : Project} {versions : List Bound} {b : Bound}
    (h : u.versions p = .ok versions) (hb : b ∈ versions) :
    u.hasRevision p b.revision = .ok true := by
  obtain ⟨snapshots, hs, rfl⟩ := versions_eq_ok_iff.1 h
  obtain ⟨s, hmem, hsb⟩ := List.mem_filterMap.1 hb
  refine hasRevision_eq_ok_iff.2 ⟨snapshots, hs, ?_⟩
  rw [List.any_eq_true]
  exact ⟨s, hmem, by simpa using revision_of_bound? hsb⟩

theorem mem_of_longest? {texts : List String} {t : String} (h : longest? texts = some t) :
    t ∈ texts := by
  have hfold : ∀ (l : List String) (best : Option String),
      l.foldl longer best = some t → best = some t ∨ t ∈ l := by
    intro l
    induction l with
    | nil => intro best hb; exact .inl hb
    | cons x xs ih =>
      intro best hb
      rcases ih (longer best x) hb with hl | hl
      · unfold longer at hl
        split at hl
        · split at hl
          · exact .inr (by simp_all)
          · exact .inl (by simp_all)
        · exact .inr (by simp_all)
      · exact .inr (List.mem_cons_of_mem _ hl)
  rcases hfold texts none h with h | h
  · simp at h
  · exact h

theorem mem_owners_of_rootOf {path root : String} (h : u.rootOf path = .ok root) :
    root ∈ u.owners path := by
  unfold rootOf at h
  split at h
  · rename_i r hr
    obtain rfl : r = root := by simpa using h
    exact mem_of_longest? hr
  · simp at h

theorem mem_roots_of_rootOf {path root : String} (h : u.rootOf path = .ok root) :
    root ∈ u.projects.keys ++ u.unreachable.toList :=
  (List.mem_filter.1 (mem_owners_of_rootOf h)).1

/-- A path lies at or below the root that owns it. -/
theorem covers_of_rootOf {path root : String} (h : u.rootOf path = .ok root) :
    ImportPath.covers root path = true :=
  (List.mem_filter.1 (mem_owners_of_rootOf h)).2

end Universe

end Depsolve
