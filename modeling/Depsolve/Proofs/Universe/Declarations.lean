import Mathlib.Data.Set.Basic
import Depsolve.Proofs.Universe.Matching

/-!
# Universes that declare different terms

`Universe.Redeclares` relates two universes with the same published states, but for the terms that
these declare for some roots. Only the manifests of the two are different; in a problem that
overrides the terms for all those roots, not even the manifests set different terms.
-/

namespace Depsolve

theorem Problem.termsFor_of_override {problem : Problem} {target : String} {terms : Terms}
    (h : problem.manifest.overrides.get? target = some terms) (manifest : Manifest) :
    problem.termsFor manifest target = terms := by
  unfold termsFor
  rw [h]
  rfl

namespace Snapshot

/-- Two published states that differ at most in the terms that they declare for some roots. -/
structure Redeclares (roots : Set String) (s t : Snapshot) : Prop where
  label : s.label = t.label
  revision : s.revision = t.revision
  packages : s.packages = t.packages
  constraints : ∀ root, root ∉ roots → s.constraints.get? root = t.constraints.get? root

namespace Redeclares

variable {roots : Set String} {s t : Snapshot}

theorem bound? (h : s.Redeclares roots t) : s.bound? = t.bound? := by
  unfold Snapshot.bound?
  rw [s.named_eq, t.named_eq, h.label, h.revision]

theorem answers (h : s.Redeclares roots t) (v : Version) : s.answers v = t.answers v := by
  unfold Snapshot.answers
  rw [h.bound?, h.revision]

theorem tree (h : s.Redeclares roots t) (root : String) : s.tree root = t.tree root := by
  unfold Snapshot.tree
  rw [h.packages]

/-- The manifests set the same terms in a problem that overrides the roots. -/
theorem sameTerms (h : s.Redeclares roots t) {problem : Problem}
    (hroots : ∀ root ∈ roots, ∃ terms, problem.manifest.overrides.get? root = some terms) :
    problem.SameTerms s.manifest t.manifest := by
  intro target
  by_cases htarget : target ∈ roots
  · obtain ⟨terms, hterms⟩ := hroots target htarget
    rw [problem.termsFor_of_override hterms, problem.termsFor_of_override hterms]
  · unfold Problem.termsFor Snapshot.manifest
    rw [h.constraints target htarget]

end Redeclares

end Snapshot

namespace Universe

variable {u u' : Universe} {roots : Set String}

/-- Two universes whose published states differ at most in the terms that they declare
for some roots. -/
def Redeclares (roots : Set String) (u u' : Universe) : Prop :=
  u.Matches (List.Forall₂ (Snapshot.Redeclares roots)) u'

namespace Redeclares

theorem bounds {l l' : List Snapshot} (h : List.Forall₂ (Snapshot.Redeclares roots) l l') :
    l.filterMap Snapshot.bound? = l'.filterMap Snapshot.bound? := by
  induction h with
  | nil => rfl
  | cons hst _ ih => rw [List.filterMap_cons, List.filterMap_cons, hst.bound?, ih]

theorem any_revision {l l' : List Snapshot} (h : List.Forall₂ (Snapshot.Redeclares roots) l l')
    (r : Revision) : (l.any fun s => s.revision = r) = l'.any fun s => s.revision = r := by
  induction h with
  | nil => rfl
  | cons hst _ ih => rw [List.any_cons, List.any_cons, hst.revision, ih]

theorem find {l l' : List Snapshot} (h : List.Forall₂ (Snapshot.Redeclares roots) l l')
    (v : Version) :
    Option.Rel (Snapshot.Redeclares roots) (l.find? (·.answers v)) (l'.find? (·.answers v)) := by
  induction h with
  | nil => exact .none
  | @cons s t _ _ hst _ ih =>
    rw [List.find?_cons, List.find?_cons, hst.answers v]
    cases t.answers v with
    | true => exact .some hst
    | false => exact ih

theorem importsOf {l l' : List Snapshot} (h : List.Forall₂ (Snapshot.Redeclares roots) l l') :
    Universe.importsOf l = Universe.importsOf l' := by
  unfold Universe.importsOf
  induction h with
  | nil => rfl
  | cons hst _ ih => rw [List.flatMap_cons, List.flatMap_cons, hst.packages, ih]

theorem limits (h : u.Redeclares roots u') : u.limits = u'.limits :=
  Matches.limits h (fun _ _ hrel => hrel.length_eq) fun _ _ hrel => congrArg _ (importsOf hrel)

theorem snapshot (h : u.Redeclares roots u') (p : Project) (v : Version) :
    Alike (Snapshot.Redeclares roots) (u.snapshot p v) (u'.snapshot p v) :=
  Matches.snapshot h (fun _ _ hrel => find hrel v) p

theorem versions (h : u.Redeclares roots u') (p : Project) :
    Alike Eq (u.versions p) (u'.versions p) :=
  (Matches.snapshots h p).map fun _ _ hrel => bounds hrel

theorem hasRevision (h : u.Redeclares roots u') (p : Project) (r : Revision) :
    Alike Eq (u.hasRevision p r) (u'.hasRevision p r) :=
  (Matches.snapshots h p).map fun _ _ hrel => any_revision hrel r

theorem packagesOf (h : u.Redeclares roots u') (p : Project) (v : Version) :
    Alike Eq (u.packagesOf p v) (u'.packagesOf p v) :=
  (h.snapshot p v).map fun _ _ hst => hst.tree p.root

/-- The manifests of a version set the same terms in a problem that overrides the roots. -/
theorem manifestOf (h : u.Redeclares roots u') {problem : Problem}
    (hroots : ∀ root ∈ roots, ∃ terms, problem.manifest.overrides.get? root = some terms)
    (p : Project) (v : Version) :
    Alike problem.SameTerms (u.manifestOf p v) (u'.manifestOf p v) :=
  (h.snapshot p v).map fun _ _ hst => hst.sameTerms hroots

end Redeclares

end Universe

end Depsolve
