import Depsolve.Constraint.Basic
import Depsolve.Proofs.Semver.Compatible
import Depsolve.Proofs.Version.Order

/-!
# What constraints see of versions

The constraint that asks for a name admits every version of this name (`Constraint.admits_ofNamed`);
for a semver tag that is because a version is compatible with itself (`Range.admits_caret`).

A constraint sees the name of a version and the revision behind it, and each by itself
(`Constraint.admits_bound`). Of a semver tag it sees the precedence alone
(`Range.admits_eq_of_precedence_eq`).
-/

namespace Depsolve

theorem Range.admits_caret (tag : Tag) : (caret tag).admits tag = true := by
  simp [admits, caret, Semver.Requirement.admits_caret]

/-- The constraint that asks for a name admits the versions of this name. -/
theorem Constraint.admits_ofNamed {v : Version} {n : Named} (h : v.named? = some n) :
    (ofNamed n).admits v = true := by
  cases n with
  | branch name isDefault => simp [ofNamed, admits, h]
  | plain tag => simp [ofNamed, admits, h]
  | semver tag =>
    have htag : v.tag? = some tag := by simp [Version.tag?, h, Named.tag?]
    simp only [ofNamed, admits, htag]
    exact Range.admits_caret tag

theorem Range.admits_eq_of_precedence_eq (range : Range) {a b : Tag} (h : a.precedence b = .eq) :
    range.admits a = range.admits b := by
  obtain ⟨build, hversion⟩ := Semver.exists_build_of_precedence_eq h
  unfold admits
  rw [hversion]
  -- no comparator reads the build identifiers
  rfl

namespace Constraint

theorem admits_ofVersion (v : Version) : (ofVersion v).admits v = true := by
  cases v with
  | revision r => simp [ofVersion, admits, Version.revision?]
  | named n => exact admits_ofNamed rfl
  | bound b => exact admits_ofNamed rfl

/-- Constraints other than those that ask for a revision go by the name. -/
theorem admits_bound (c : Constraint) (n : Named) (r : Revision) :
    c.admits (.bound ⟨n, r⟩) = (c.admits (.named n) || c.admits (.revision r)) := by
  cases c with
  | any => rfl
  | revision wanted => simp [admits, Version.revision?]
  | branch name => simp [admits, Version.named?]
  | plain tag => simp [admits, Version.named?]
  | semver range => simp [admits, Version.tag?, Version.named?]

theorem admits_eq_of_agrees (c : Constraint) {u w : Named} (h : u.agrees w = true) :
    c.admits (.named u) = c.admits (.named w) := by
  cases u <;> cases w <;> simp only [Named.agrees, decide_eq_true_eq, Bool.false_eq_true] at h
  case branch.branch =>
    subst h
    cases c <;> rfl
  case plain.plain =>
    subst h
    rfl
  case semver.semver =>
    cases c with
    | semver range => exact range.admits_eq_of_precedence_eq h
    | _ => rfl

/-- Every version satisfies its own constraint, names and revisions are admitted apart from each
other, and names that agree are admitted alike. -/
theorem admits_by_name_and_revision (c : Constraint) :
    (∀ v, (ofVersion v).admits v = true) ∧
    (∀ u r, c.admits (.bound ⟨u, r⟩) = true ↔
      c.admits (.named u) = true ∨ c.admits (.revision r) = true) ∧
    ∀ u w : Named, u.agrees w = true →
      (c.admits (.named u) = true ↔ c.admits (.named w) = true) := by
  refine ⟨admits_ofVersion, fun u r => ?_, fun u w h => ?_⟩
  · rw [admits_bound, Bool.or_eq_true]
  · rw [c.admits_eq_of_agrees h]

/-- A tag with a `v` and no patch number, and one with build identifiers. -/
theorem admits_by_name_and_revision_of_spellings :
    (Named.ofTag "v1.2").agrees (Named.ofTag "1.2.0+linux.x64") = true ∧
      ((ofVersionText "~1.2 || >=3").admits (.named (Named.ofTag "v1.2")) = true ↔
        (ofVersionText "~1.2 || >=3").admits (.named (Named.ofTag "1.2.0+linux.x64")) = true) := by
  have hagrees : (Named.ofTag "v1.2").agrees (Named.ofTag "1.2.0+linux.x64") = true := by
    decide +kernel
  obtain ⟨-, -, hnames⟩ := admits_by_name_and_revision (ofVersionText "~1.2 || >=3")
  exact ⟨hagrees, hnames _ _ hagrees⟩

end Constraint

end Depsolve
