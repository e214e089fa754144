import Depsolve.Proofs.Version.Order

/-!
# Selecting versions by preference

`Preference.IsSorted` says what the two orders of preference have in common and where they differ:
names are kept in groups, the same in both, and only within the groups of semver tags does the
direction count. Whatever is selected from a list of versions follows from the sorted list, so that
the order of listing does not matter (`Selection.follows_preference`).
-/

namespace Depsolve

open Std

/-- What an order of preference keeps together. -/
inductive Group
  | release
  | prerelease
  | defaultBranch
  | branch
  | plain
deriving DecidableEq

/-- The groups, the wanted ones first. -/
def Group.inOrder : List Group :=
  [.release, .prerelease, .defaultBranch, .branch, .plain]

/-- The group of a name. -/
def Named.group : Named → Group
  | .semver tag => if tag.version.pre = [] then .release else .prerelease
  | .branch _ true => .defaultBranch
  | .branch _ false => .branch
  | .plain _ => .plain

namespace Preference

/-- A tag may stand before another one of its group. -/
def Allows : Preference → Tag → Tag → Prop
  | .upgrade, a, b => a.precedence b ≠ .lt
  | .downgrade, a, b => a.precedence b ≠ .gt

/-- A list has its groups in order, and each group of semver tags by precedence. -/
structure IsSorted (p : Preference) (versions : List Bound) : Prop where
  groups : versions.Pairwise fun a b =>
    a.named.group = b.named.group ∨ [a.named.group, b.named.group].Sublist Group.inOrder
  precedence : versions.Pairwise fun a b => ∀ s t, a.named = .semver s → b.named = .semver t →
    a.named.group = b.named.group → p.Allows s t

theorem rank_eq_idxOf (n : Named) : rank n = Group.inOrder.idxOf n.group := by
  cases n with
  | branch name isDefault => cases isDefault <;> rfl
  | plain tag => rfl
  | semver tag =>
    by_cases hpre : tag.version.pre = []
    · have hrelease : tag.isPrerelease = false := by simp [Tag.isPrerelease, hpre]
      rw [rank, Named.group, if_pos hpre, hrelease]
      rfl
    · have hprerelease : tag.isPrerelease = true := by simp [Tag.isPrerelease, hpre]
      rw [rank, Named.group, if_neg hpre, hprerelease]
      rfl

theorem group_of_rank_le {a b : Named} (h : rank a ≤ rank b) :
    a.group = b.group ∨ [a.group, b.group].Sublist Group.inOrder := by
  rw [rank_eq_idxOf, rank_eq_idxOf] at h
  revert h
  cases a.group <;> cases b.group <;> decide

theorem rank_le_of_isLE {p : Preference} {a b : Bound} (h : (p.compare a b).isLE = true) :
    rank a.named ≤ rank b.named :=
  Nat.isLE_compare.1 (Ordering.isLE_left_of_isLE_then (Ordering.isLE_left_of_isLE_then h))

theorem allows_of_isLE {p : Preference} {a b : Bound} {s t : Tag} (h : (p.compare a b).isLE = true)
    (ha : a.named = .semver s) (hb : b.named = .semver t) (hgroup : a.named.group = b.named.group) :
    p.Allows s t := by
  have hrank : Ord.compare (rank a.named) (rank b.named) = .eq := by
    rw [rank_eq_idxOf, rank_eq_idxOf, hgroup]
    exact ReflOrd.compare_self
  have hname := Ordering.isLE_left_of_isLE_then h
  rw [compareNamed, hrank, Ordering.eq_then, ha, hb] at hname
  have horient : (p.orient (s.precedence t)).isLE = true := Ordering.isLE_left_of_isLE_then hname
  cases p with
  | upgrade => simpa [orient, Allows, Ordering.isGE_iff_ne_lt] using horient
  | downgrade => simpa [orient, Allows, Ordering.isLE_iff_ne_gt] using horient

theorem isSorted_sort (p : Preference) (versions : List Bound) : p.IsSorted (p.sort versions) where
  groups := (p.pairwise_sort versions).imp fun h => group_of_rank_le (rank_le_of_isLE h)
  precedence := (p.pairwise_sort versions).imp fun h _ _ => allows_of_isLE h

end Preference

namespace Selection

variable (versions : List Bound) (constraints : List Constraint)

theorem matching_ofList : (ofList versions).matching constraints =
    (Preference.upgrade.sort versions).filter fun b => ∀ c ∈ constraints,
      c.admits (.bound b) = true := by
  refine List.filter_congr fun b _ => ?_
  rw [Bool.eq_iff_iff]
  simp [admitted]

theorem best?_eq_head? (s : Selection) : s.best? constraints = (s.matching constraints).head? :=
  List.head?_filter.symm

theorem hasMatching_iff (s : Selection) :
    s.hasMatching constraints = true ↔ s.matching constraints ≠ [] := by
  simp [hasMatching, matching]

theorem lowest?_eq_head? (s : Selection) :
    s.lowest? constraints = (Preference.downgrade.sort (s.matching constraints)).head? :=
  firstMin?_eq_head? (Preference.downgrade.sort_perm _) (Preference.downgrade.pairwise_sort _)

/-- Versions are sorted by preference and selected in this order, however they are listed. -/
theorem follows_preference (versions : List Bound) :
    (∀ p : Preference, (p.sort versions).Perm versions ∧ p.IsSorted (p.sort versions)) ∧
    (∀ constraints : List Constraint,
      (ofList versions).matching constraints =
        ((Preference.upgrade.sort versions).filter fun b => ∀ c ∈ constraints,
          c.admits (.bound b) = true) ∧
      (ofList versions).best? constraints = ((ofList versions).matching constraints).head? ∧
      ((ofList versions).hasMatching constraints = true ↔
        (ofList versions).matching constraints ≠ []) ∧
      (ofList versions).lowest? constraints =
        (Preference.downgrade.sort ((ofList versions).matching constraints)).head?) ∧
    ∀ listed : List Bound, listed.Perm versions →
      (∀ p : Preference, p.sort listed = p.sort versions) ∧ ofList listed = ofList versions := by
  refine ⟨fun p => ⟨p.sort_perm versions, p.isSorted_sort versions⟩, fun constraints => ?_,
    fun listed h => ?_⟩
  · exact ⟨matching_ofList versions constraints, best?_eq_head? constraints _,
      hasMatching_iff constraints _, lowest?_eq_head? constraints _⟩
  · exact ⟨fun p => p.sort_eq_of_perm h, congrArg mk (Preference.upgrade.sort_eq_of_perm h)⟩

/-- Two spellings of one version, and a branch listed both as the default branch and as another
one. -/
theorem follows_preference_of_ties :
    Preference.upgrade.sort [⟨.ofTag "v1.0", ⟨"a"⟩⟩, ⟨.ofTag "1.0.0+b", ⟨"a"⟩⟩,
      ⟨.branch "main" true, ⟨"c"⟩⟩, ⟨.branch "main" false, ⟨"c"⟩⟩].reverse =
      Preference.upgrade.sort [⟨.ofTag "v1.0", ⟨"a"⟩⟩, ⟨.ofTag "1.0.0+b", ⟨"a"⟩⟩,
        ⟨.branch "main" true, ⟨"c"⟩⟩, ⟨.branch "main" false, ⟨"c"⟩⟩] := by
  obtain ⟨-, -, hlisted⟩ := follows_preference [⟨.ofTag "v1.0", ⟨"a"⟩⟩, ⟨.ofTag "1.0.0+b", ⟨"a"⟩⟩,
    ⟨.branch "main" true, ⟨"c"⟩⟩, ⟨.branch "main" false, ⟨"c"⟩⟩]
  exact (hlisted _ (List.reverse_perm _)).1 .upgrade

end Selection

end Depsolve
