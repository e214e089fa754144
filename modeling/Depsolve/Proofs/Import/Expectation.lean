import Depsolve.Import.Expectation
import Depsolve.Proofs.Except

/-!
# What the check of a conversion accepts

`Expectation.Meets` says, field by field, when a conversion is as expected. `Expectation.check`
looks at the locked projects only if there is a lock: it accepts what is as expected, and also a
conversion without a lock where some locked projects are expected (`Expectation.Overlooks`). There
is nothing else that it accepts.
-/

namespace Depsolve

/-! ## Being as expected -/

/-- The projects that a conversion locks; without a lock there are none. -/
def Conversion.locked (c : Conversion) : List LockedProject :=
  match c.lock with
  | none => []
  | some lock => lock.projects

namespace Expectation

/-- A manifest is as expected. -/
structure FitsManifest (e : Expectation) (m : Manifest) : Prop where
  /-- The ignore rules are the wanted ones, in some order. -/
  ignored : m.ignored.toList.Perm e.ignored
  count : m.ignored.size = e.ignoreCount
  /-- A wanted constraint is declared for the project. -/
  constraint : ∀ wanted, e.constraint = some wanted →
    ∃ terms, m.constraints.get? e.project = some terms ∧ terms.constraint.toText = wanted

/-- A locked project is as expected. -/
structure FitsProject (e : Expectation) (p : LockedProject) : Prop where
  root : p.project.root = e.project
  source : p.project.source = e.source
  version : ∀ wanted, e.version = some wanted → p.version.toText = wanted
  /-- Only a bound version can have a wanted revision. -/
  revision : ∀ wanted, e.revision = some wanted → ∃ b, p.version = .bound b ∧
    b.revision.text = wanted

/-- The locked projects are as expected. Only the first one is looked at. -/
structure FitsLocked (e : Expectation) (locked : List LockedProject) : Prop where
  count : locked.length = e.lockCount
  first : ∀ p, locked.head? = some p → e.FitsProject p

/-- A conversion ends as expected. If it should fail nothing else is expected of it. -/
def Meets (e : Expectation) : Except Fault Conversion → Prop
  | .error _ => e.fails = true
  | .ok c => e.fails = false ∧ e.FitsManifest c.manifest ∧ e.FitsLocked c.locked

/-- Some locked projects are expected and there is no lock, but the rest is as expected. -/
def Overlooks (e : Expectation) : Except Fault Conversion → Prop
  | .error _ => False
  | .ok c => e.fails = false ∧ e.FitsManifest c.manifest ∧ c.lock = none ∧ e.lockCount ≠ 0

/-! ## The parts of the check -/

variable {e : Expectation}

theorem expect_eq_ok_iff {holds : Bool} {mismatch : Mismatch} :
    expect holds mismatch = .ok () ↔ holds = true := by
  cases holds <;> simp [expect]

/-- The rules of a set are some sorted rules just if they are these rules in some order. -/
theorem toList_eq_mergeSort_iff {s : SortedSet String} {l : List String} :
    s.toList = l.mergeSort (fun a b => ! decide (b < a)) ↔ s.toList.Perm l := by
  constructor
  · intro h
    rw [h]
    exact List.mergeSort_perm _ _
  · intro h
    have hsorted := pairwise_mergeSort_key (fun rule : String => rule) l
    have hascending := s.ascending.imp fun {a b} (hab : a < b) => Std.not_gt_of_lt hab
    refine List.Perm.eq_of_pairwise ?_ hascending hsorted (h.trans (List.mergeSort_perm _ _).symm)
    intro a b _ _ hab hba
    exact Std.le_antisymm (Std.not_lt.1 hab) (Std.not_lt.1 hba)

theorem checkIgnored_eq_ok_iff {m : Manifest} :
    e.checkIgnored m = .ok () ↔ m.ignored.size = e.ignoreCount ∧
    m.ignored.toList.Perm e.ignored := by
  simp only [checkIgnored, bind_unit_eq_ok_iff, expect_eq_ok_iff, decide_eq_true_eq,
    toList_eq_mergeSort_iff]
  rfl

theorem checkConstraint_eq_ok_iff {m : Manifest} :
    e.checkConstraint m = .ok () ↔ ∀ wanted, e.constraint = some wanted →
      ∃ terms, m.constraints.get? e.project = some terms ∧ terms.constraint.toText = wanted := by
  unfold checkConstraint
  cases e.constraint with
  | none => simp
  | some wanted =>
    cases m.constraints.get? e.project with
    | none => simp
    | some terms => simp [expect_eq_ok_iff]

theorem checkVersion_eq_ok_iff {v : Version} :
    e.checkVersion v = .ok () ↔ (∀ wanted, e.version = some wanted → v.toText = wanted) ∧
      ∀ wanted, e.revision = some wanted → ∃ b, v = .bound b ∧ b.revision.text = wanted := by
  unfold checkVersion
  cases e.version <;> cases e.revision <;> cases v <;>
    simp [bind_unit_eq_ok_iff, expect_eq_ok_iff, pure, Except.pure, throw, throwThe,
      MonadExceptOf.throw]

theorem checkLock_eq_ok_iff {lock : Lock} :
    e.checkLock lock = .ok () ↔ e.FitsLocked lock.projects := by
  unfold checkLock
  simp only [bind_unit_eq_ok_iff, expect_eq_ok_iff, decide_eq_true_eq]
  cases hhead : lock.projects.head? with
  | none =>
    constructor
    · rintro ⟨hcount, -⟩
      exact ⟨hcount, by simp [hhead]⟩
    · intro h
      exact ⟨h.count, rfl⟩
  | some p =>
    simp only [bind_unit_eq_ok_iff, expect_eq_ok_iff, decide_eq_true_eq, checkVersion_eq_ok_iff]
    constructor
    · rintro ⟨hcount, hroot, hsource, hversion, hrevision⟩
      refine ⟨hcount, fun p' hp' => ?_⟩
      obtain rfl : p = p' := Option.some.inj (hhead.symm.trans hp')
      exact ⟨hroot, hsource, hversion, hrevision⟩
    · intro h
      have hfirst := h.first p hhead
      exact ⟨h.count, hfirst.root, hfirst.source, hfirst.version, hfirst.revision⟩

/-- Without a lock the locked projects are not looked at. -/
theorem forM_checkLock_eq_ok_iff {lock : Option Lock} :
    lock.forM e.checkLock = .ok () ↔ ∀ l, lock = some l → e.FitsLocked l.projects := by
  cases lock with
  | none => simp [pure, Except.pure]
  | some l => simp [checkLock_eq_ok_iff]

/-! ## The whole check -/

theorem check_error_eq_ok_iff {fault : Fault} :
    e.check (.error fault) = .ok () ↔ e.fails = true := by
  unfold check
  cases e.fails <;> simp

theorem check_ok_eq_ok_iff {c : Conversion} :
    e.check (.ok c) = .ok () ↔
      e.fails = false ∧ e.FitsManifest c.manifest ∧ ∀ l, c.lock = some l →
        e.FitsLocked l.projects := by
  unfold check
  cases e.fails with
  | true => simp
  | false =>
    simp only [bind_unit_eq_ok_iff, checkIgnored_eq_ok_iff, checkConstraint_eq_ok_iff,
      forM_checkLock_eq_ok_iff, true_and]
    exact ⟨fun ⟨⟨hcount, hignored⟩, hconstraint, hlock⟩ => ⟨⟨hignored, hcount, hconstraint⟩, hlock⟩,
      fun ⟨hmanifest, hlock⟩ => ⟨⟨hmanifest.count, hmanifest.ignored⟩, hmanifest.constraint, hlock⟩⟩

/-- That nothing is locked is as expected just if nothing should be. -/
theorem fitsLocked_nil : e.FitsLocked [] ↔ e.lockCount = 0 := by
  constructor
  · intro h
    exact h.count.symm
  · intro h
    exact ⟨h.symm, by simp⟩

theorem Overlooks.check {result : Except Fault Conversion} (h : e.Overlooks result) :
    e.check result = .ok () := by
  cases result with
  | error _ => exact h.elim
  | ok c =>
    obtain ⟨hfails, hmanifest, hlock, -⟩ := h
    exact check_ok_eq_ok_iff.2 ⟨hfails, hmanifest, fun l hl => nomatch hlock.symm.trans hl⟩

theorem Overlooks.not_meets {result : Except Fault Conversion} (h : e.Overlooks result) :
    ¬ e.Meets result := by
  cases result with
  | error _ => exact h.elim
  | ok c =>
    obtain ⟨-, -, hlock, hcount⟩ := h
    rintro ⟨-, -, hlocked⟩
    rw [Conversion.locked, hlock, fitsLocked_nil] at hlocked
    exact hcount hlocked

theorem check_eq_ok_iff_of_not_overlooks {result : Except Fault Conversion}
    (h : ¬ e.Overlooks result) : e.check result = .ok () ↔ e.Meets result := by
  cases result with
  | error _ => exact check_error_eq_ok_iff
  | ok c =>
    rw [check_ok_eq_ok_iff]
    refine and_congr_right fun hfails => and_congr_right fun hmanifest => ?_
    cases hlock : c.lock with
    | none =>
      have hcount : e.lockCount = 0 := by
        by_contra hcount
        exact h ⟨hfails, hmanifest, hlock, hcount⟩
      simp [Conversion.locked, hlock, fitsLocked_nil, hcount]
    | some l => simp [Conversion.locked, hlock]

/-- The check accepts exactly what is as expected, unless it overlooks that there is no lock. Then
it accepts what is not as expected. -/
theorem check_accepts (e : Expectation) (result : Except Fault Conversion) :
    ((e.check result = .ok () ↔ e.Meets result) ↔ ¬ e.Overlooks result) ∧
      (e.Overlooks result → e.check result = .ok () ∧ ¬ e.Meets result) := by
  refine ⟨⟨fun hiff hover => ?_, check_eq_ok_iff_of_not_overlooks⟩,
    fun hover => ⟨hover.check, hover.not_meets⟩⟩
  exact hover.not_meets (hiff.1 hover.check)

/-- One locked project is expected of a conversion that has no lock. -/
theorem check_overlooks_missing_lock :
    let e : Expectation := ⟨false, "example.com/tool", none, none, none, none, 1, 0, []⟩
    e.check (.ok ⟨default, none⟩) = .ok () ∧ ¬ e.Meets (.ok ⟨default, none⟩) := by
  refine ⟨by decide +kernel, fun hmeets => ?_⟩
  exact absurd hmeets.2.2.count (by decide)

end Expectation

end Depsolve
