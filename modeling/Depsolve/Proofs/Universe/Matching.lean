import Mathlib.Data.List.Forall2
import Depsolve.Proofs.Source.Mirror
import Depsolve.Proofs.Universe.Answers

/-!
# Universes with the same projects

`Universe.Matches` relates two universes that have the same projects and the same places that cannot
be reached, and in which the published states of each project are related in some way. Whatever that
way is, the two name the same owners and fail for the same projects; the limits are the same if the
states are as many and have as many imports.
-/

namespace Depsolve

/-- Values by key, under the same keys in two lists, are related. -/
theorem lookup_rel {κ α β : Type} [BEq κ] {R : α → β → Prop} {l : List (κ × α)} {l' : List (κ × β)}
    (h : List.Forall₂ (fun a b => a.1 = b.1 ∧ R a.2 b.2) l l') (key : κ) :
    Option.Rel R (l.lookup key) (l'.lookup key) := by
  induction h with
  | nil => exact .none
  | @cons a b l l' hab _ ih =>
    obtain ⟨k, x⟩ := a
    obtain ⟨k', y⟩ := b
    obtain ⟨rfl, hxy⟩ : k = k' ∧ R x y := hab
    rw [List.lookup_cons, List.lookup_cons]
    cases key == k with
    | true => exact .some hxy
    | false => exact ih

namespace Universe

variable {u u' : Universe} {R : List Snapshot → List Snapshot → Prop}

/-- Two universes with the same projects, whose published states are related. -/
structure Matches (R : List Snapshot → List Snapshot → Prop) (u u' : Universe) : Prop where
  projects : List.Forall₂ (fun a b => a.1 = b.1 ∧ R a.2 b.2) u.projects.entries u'.projects.entries
  unreachable : u.unreachable = u'.unreachable

/-- The import entries of published states. -/
def importsOf (snapshots : List Snapshot) : List String :=
  snapshots.flatMap fun s => s.packages.values.flatMap SortedSet.toList

namespace Matches

theorem keys (h : u.Matches R u') : u.projects.keys = u'.projects.keys := by
  unfold SortedMap.keys
  rw [← List.forall₂_eq_eq_eq, List.forall₂_map_left_iff, List.forall₂_map_right_iff]
  exact h.projects.imp fun _ _ hab => hab.1

theorem values (h : u.Matches R u') : List.Forall₂ R u.projects.values u'.projects.values := by
  unfold SortedMap.values
  rw [List.forall₂_map_left_iff, List.forall₂_map_right_iff]
  exact h.projects.imp fun _ _ hab => hab.2

theorem rootOf (h : u.Matches R u') (path : String) : u.rootOf path = u'.rootOf path := by
  unfold Universe.rootOf owners
  rw [h.keys, h.unreachable]

theorem snapshots (h : u.Matches R u') (p : Project) :
    Alike R (u.snapshots p) (u'.snapshots p) := by
  have hlocation := lookup_rel h.projects p.location
  have hroot := lookup_rel h.projects p.root
  unfold Universe.snapshots SortedMap.get?
  rw [h.unreachable]
  split
  · exact .error _
  · revert hlocation hroot
    generalize u.projects.entries.lookup p.location = a
    generalize u'.projects.entries.lookup p.location = a'
    generalize u.projects.entries.lookup p.root = b
    generalize u'.projects.entries.lookup p.root = b'
    intro hlocation hroot
    cases hlocation with
    | some hrel => exact .ok hrel
    | none =>
      cases hroot with
      | some hrel => exact .ok hrel
      | none => exact .error _

/-- The published states that a version means are related, if the first ones that it means are. -/
theorem snapshot {S : Snapshot → Snapshot → Prop} {v : Version} (h : u.Matches R u')
    (hfind : ∀ l l', R l l' → Option.Rel S (l.find? (·.answers v)) (l'.find? (·.answers v)))
    (p : Project) : Alike S (u.snapshot p v) (u'.snapshot p v) := by
  have halike := h.snapshots p
  unfold Universe.snapshot
  generalize u.snapshots p = a at halike
  generalize u'.snapshots p = a' at halike
  cases halike with
  | error e => exact .error e
  | @ok l l' hrel =>
    have hfound := hfind l l' hrel
    dsimp only [bind, Except.bind]
    generalize l.find? (·.answers v) = b at hfound
    generalize l'.find? (·.answers v) = b' at hfound
    cases hfound with
    | none => exact .error _
    | some hst => exact .ok hst

theorem snapshotBound (h : u.Matches R u') (hlength : ∀ l l', R l l' → l.length = l'.length) :
    u.snapshotBound = u'.snapshotBound := by
  have hfold : ∀ {l l' : List (List Snapshot)}, List.Forall₂ R l l' → ∀ most : Nat,
      l.foldl (fun most snapshots => max most snapshots.length) most =
        l'.foldl (fun most snapshots => max most snapshots.length) most := by
    intro l l' hll
    induction hll with
    | nil => exact fun _ => rfl
    | cons hab _ ih =>
      intro most
      rw [List.foldl_cons, List.foldl_cons, hlength _ _ hab, ih]
  exact hfold h.values 0

theorem importCount (h : u.Matches R u')
    (himports : ∀ l l', R l l' → (importsOf l).length = (importsOf l').length) :
    u.importCount = u'.importCount := by
  have hflatten : ∀ {l l' : List (List Snapshot)}, List.Forall₂ R l l' →
      (importsOf l.flatten).length = (importsOf l'.flatten).length := by
    intro l l' hll
    induction hll with
    | nil => rfl
    | @cons a b l l' hab _ ih =>
      have happend : ∀ (x : List Snapshot) (y : List (List Snapshot)),
          importsOf (x :: y).flatten = importsOf x ++ importsOf y.flatten := by
        intro x y
        rw [List.flatten_cons, importsOf, List.flatMap_append]
        rfl
      rw [happend, happend, List.length_append, List.length_append, himports a b hab, ih]
  exact hflatten h.values

theorem limits (h : u.Matches R u') (hlength : ∀ l l', R l l' → l.length = l'.length)
    (himports : ∀ l l', R l l' → (importsOf l).length = (importsOf l').length) :
    u.limits = u'.limits := by
  have hsize : u.projects.size = u'.projects.size := h.projects.length_eq
  unfold Universe.limits candidateBound rootCount
  rw [h.snapshotBound hlength, h.importCount himports, hsize, h.unreachable]

end Matches

end Universe

end Depsolve
