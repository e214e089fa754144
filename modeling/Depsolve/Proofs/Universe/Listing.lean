import Depsolve.Proofs.Universe.Matching
import Depsolve.Proofs.Version.Order

/-!
# Universes that list the same in another order

`Universe.Relists` relates two universes that differ only in the order in which projects list their
published states. If revisions are hashes (`Universe.Hashes`), the two answer alike whatever a
solver may ask: the same versions up to their order, the same owners and revisions, and the same
manifest and packages for a version with a revision.
-/

namespace Depsolve

namespace Universe

variable {u u' : Universe}

/-- Two universes with the same projects and the same published states of each, in
whatever order. -/
structure Relists (u u' : Universe) : Prop where
  projects : List.Forall₂ (fun a b => a.1 = b.1 ∧
    a.2.Perm b.2) u.projects.entries u'.projects.entries
  unreachable : u.unreachable = u'.unreachable

/-- Published states of one project with the same revision have the same contents. -/
def Hashes (u : Universe) : Prop :=
  ∀ root snapshots, (root, snapshots) ∈ u.projects.entries → ∀ s ∈ snapshots, ∀ t ∈ snapshots,
    s.revision = t.revision → s.constraints = t.constraints ∧ s.packages = t.packages

namespace Relists

theorem matches_perm (h : u.Relists u') : u.Matches List.Perm u' :=
  ⟨h.projects, h.unreachable⟩

theorem rootOf (h : u.Relists u') (path : String) : u.rootOf path = u'.rootOf path :=
  h.matches_perm.rootOf path

theorem snapshots (h : u.Relists u') (p : Project) :
    Alike List.Perm (u.snapshots p) (u'.snapshots p) :=
  h.matches_perm.snapshots p

theorem versions (h : u.Relists u') (p : Project) :
    Alike SortAlike (u.versions p) (u'.versions p) :=
  (h.snapshots p).map fun _ _ hperm => Preference.sort_eq_of_perm _ (hperm.filterMap _)

theorem hasRevision (h : u.Relists u') (p : Project) (r : Revision) :
    Alike Eq (u.hasRevision p r) (u'.hasRevision p r) :=
  (h.snapshots p).map fun _ _ hperm => hperm.any_eq

/-- A version with a revision means states with the same contents, if revisions are hashes. -/
theorem snapshot (h : u.Relists u') (hhashes : u.Hashes) (p : Project) {v : Version}
    (hv : v.Pinned) :
    Alike (fun s t => s.constraints = t.constraints ∧ s.packages = t.packages) (u.snapshot p v)
      (u'.snapshot p v) := by
  obtain ⟨r, hr⟩ := Option.ne_none_iff_exists'.1 hv
  have halike := h.snapshots p
  unfold Universe.snapshot
  cases hs : u.snapshots p with
  | error e =>
    rw [hs] at halike
    generalize u'.snapshots p = x at halike
    cases halike with
    | error e => exact .error e
  | ok l =>
    obtain ⟨root, hroot⟩ := mem_projects_of_snapshots hs
    rw [hs] at halike
    generalize u'.snapshots p = x at halike
    cases halike with
    | @ok _ l' hperm =>
      simp only [bind, Except.bind]
      cases hfind : l.find? (·.answers v) with
      | none =>
        have hnone : l'.find? (·.answers v) = none := by
          rw [List.find?_eq_none] at hfind ⊢
          intro s hmem
          exact hfind s (hperm.mem_iff.2 hmem)
        rw [hnone]
        exact .error _
      | some s =>
        have hsome : (l'.find? (·.answers v)).isSome = true := by
          rw [List.find?_isSome]
          have hanswers := List.find?_some hfind
          exact ⟨s, hperm.mem_iff.1 (List.mem_of_find?_eq_some hfind), hanswers⟩
        obtain ⟨t, ht⟩ := Option.isSome_iff_exists.1 hsome
        rw [ht]
        -- both have the revision that is asked for
        have hrevision : ∀ {l : List Snapshot} {s}, l.find? (·.answers v) = some s →
            s.revision = r := by
          intro l s hfound
          have hanswers := List.find?_some hfound
          exact (Snapshot.answers_iff_of_revision hr).1 hanswers
        have hmem := List.mem_of_find?_eq_some hfind
        have hmem' := hperm.mem_iff.2 (List.mem_of_find?_eq_some ht)
        exact .ok (hhashes root l hroot s hmem t hmem'
          ((hrevision hfind).trans (hrevision ht).symm))

theorem manifestOf (h : u.Relists u') (hhashes : u.Hashes) (p : Project) {v : Version}
    (hv : v.Pinned) : Alike Eq (u.manifestOf p v) (u'.manifestOf p v) := by
  refine (h.snapshot hhashes p hv).map fun s t hst => ?_
  unfold Snapshot.manifest
  rw [hst.1]

theorem packagesOf (h : u.Relists u') (hhashes : u.Hashes) (p : Project) {v : Version}
    (hv : v.Pinned) : Alike Eq (u.packagesOf p v) (u'.packagesOf p v) := by
  refine (h.snapshot hhashes p hv).map fun s t hst => ?_
  unfold Snapshot.tree
  rw [hst.2]

theorem limits (h : u.Relists u') : u.limits = u'.limits :=
  h.matches_perm.limits (fun _ _ hperm => hperm.length_eq)
    fun _ _ hperm => (hperm.flatMap_right _).length_eq

end Relists

end Universe

end Depsolve
