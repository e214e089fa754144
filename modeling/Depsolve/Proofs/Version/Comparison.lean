import Depsolve.Proofs.Version.Order

/-!
# Versions are totally ordered

`Version.compare` goes by kind, name, binding and revision in turn. Each of these orders is total,
and names that tie are equal but for the flag of a branch (`Named.compare_eq_eq_iff`), so that the
whole order is total up to `Version.same` (`Version.compare_total`).
-/

namespace Depsolve

open Std

namespace Semver

/-- A digit text without its leading zeros. -/
def stripZeros (digits : String) : String :=
  String.ofList (digits.toList.dropWhile (· == '0'))

theorem comparePadded_eq_then (a b : String) : comparePadded a b =
    (compareDigits (stripZeros a) (stripZeros b)).then (compare a.length b.length) :=
  rfl

instance : TransCmp comparePadded :=
  haveI := transCmp_comap compareDigits stripZeros
  transCmp_of_eq comparePadded_eq_then (inferInstanceAs (TransCmp (compareLex
    (fun a b => compareDigits (stripZeros a) (stripZeros b)) (compareOn String.length))))

instance : TransCmp compareBuild :=
  inferInstanceAs (TransCmp (List.compareLex (compareSegment comparePadded)))

end Semver

/-! ## Tags -/

instance : TransCmp Tag.compare :=
  haveI := transCmp_comap Semver.precedence Tag.version
  haveI := transCmp_comap Semver.compareBuild fun t : Tag => t.version.build
  inferInstanceAs (TransCmp (compareLex (fun a b : Tag => a.version.precedence b.version)
    (compareLex (fun a b => Semver.compareBuild a.version.build b.version.build)
      (compareOn Tag.text))))

theorem Tag.compare_text_eq {a b : Tag} (h : a.compare b = .eq) :
    Ord.compare a.text b.text = .eq := by
  simp only [Tag.compare, Ordering.then_eq_eq] at h
  exact h.2.2

instance : LawfulEqCmp Tag.compare where
  eq_of_compare h := Tag.eq_of_text_eq (LawfulEqOrd.eq_of_compare (Tag.compare_text_eq h))

/-! ## Names -/

namespace Named

/-- Names are compared by kind, then as tags, then by their text. -/
theorem compare_eq_then (a b : Named) : a.compare b =
    (Ord.compare a.kind.rank b.kind.rank).then
      ((List.compareLex Tag.compare a.tag?.toList b.tag?.toList).then
        (Ord.compare a.name b.name)) := by
  cases a <;> cases b
  case semver.semver a b =>
    simp [compare, tag?, kind, name, List.compareLex_cons_cons, List.compareLex_nil_nil,
      then_eq_left Tag.compare_text_eq]
  all_goals rfl

instance : TransCmp Named.compare :=
  haveI := transCmp_comap (List.compareLex Tag.compare) fun n : Named => n.tag?.toList
  transCmp_of_eq compare_eq_then
    (inferInstanceAs (TransCmp (compareLex (compareOn fun n : Named => n.kind.rank)
    (compareLex (fun a b : Named => List.compareLex Tag.compare a.tag?.toList b.tag?.toList)
      (compareOn name)))))

theorem compare_eq_eq_iff {a b : Named} : a.compare b = .eq ↔ a.canonical = b.canonical := by
  cases a <;> cases b
  case branch.branch => simp [compare, canonical]
  case plain.plain => simp [compare, canonical]
  case semver.semver => simp [compare, canonical]
  all_goals simp [compare, canonical, kind, Kind.rank]

theorem rank_eq_of_canonical_eq {a b : Named} (h : a.canonical = b.canonical) :
    a.kind.rank = b.kind.rank := by
  cases a <;> cases b <;> first | rfl | contradiction

end Named

/-! ## Versions -/

theorem Revision.text_inj {r s : Revision} : r.text = s.text ↔ r = s := by
  cases r
  cases s
  simp

theorem Kind.eq_of_rank_eq {k l : Kind} (h : k.rank = l.rank) : k = l := by
  cases k <;> cases l <;> first | rfl | simp [rank] at h

namespace Version

theorem named?_eq_none_iff {v : Version} : v.named? = none ↔ v.kind = .revision := by
  unfold kind
  cases v.named? with
  | none => simp
  | some n => cases n <;> simp [Named.kind]

/-- Versions are compared by kind, then by name, then the unbound before the bound, then by
revision. -/
theorem compare_eq_then (a b : Version) : a.compare b =
    (Ord.compare a.kind.rank b.kind.rank).then
      ((List.compareLex Named.compare a.named?.toList b.named?.toList).then
        ((Ord.compare a.isBound.toNat b.isBound.toNat).then
          (Ord.compare (a.revision?.map Revision.text) (b.revision?.map Revision.text)))) := by
  refine then_congr fun hrank => ?_
  have hkind := Kind.eq_of_rank_eq (LawfulEqOrd.eq_of_compare hrank)
  -- of two versions of one kind, both have a name or neither does
  have hnamed : compareNamed? a.named? b.named? =
      List.compareLex Named.compare a.named?.toList b.named?.toList := by
    cases ha : a.named? <;> cases hb : b.named?
    · rfl
    · rw [named?_eq_none_iff, hkind, ← named?_eq_none_iff, hb] at ha
      contradiction
    · rw [named?_eq_none_iff, ← hkind, ← named?_eq_none_iff, ha] at hb
      contradiction
    · simp [compareNamed?, List.compareLex_cons_cons, List.compareLex_nil_nil]
  have hrevision : compareRevision? a.revision? b.revision? =
      Ord.compare (a.revision?.map Revision.text) (b.revision?.map Revision.text) := by
    cases a.revision? <;> cases b.revision? <;> rfl
  rw [hnamed, hrevision]

instance : TransCmp Version.compare :=
  haveI := transCmp_comap (List.compareLex Named.compare) fun v : Version => v.named?.toList
  transCmp_of_eq compare_eq_then
    (inferInstanceAs (TransCmp (compareLex (compareOn fun v : Version => v.kind.rank)
    (compareLex (fun a b : Version => List.compareLex Named.compare a.named?.toList b.named?.toList)
      (compareLex (compareOn fun v => v.isBound.toNat)
        (compareOn fun v => v.revision?.map Revision.text))))))

theorem compareRevision?_eq_eq_iff {r s : Option Revision} :
    compareRevision? r s = .eq ↔ r = s := by
  cases r <;> cases s <;> simp [compareRevision?, Revision.text_inj]

/-- Versions tie if they are the same but for the flag of a branch. -/
theorem compare_eq_eq_iff {a b : Version} : a.compare b = .eq ↔ a.same b = true := by
  simp only [compare, Ordering.then_eq_eq, LawfulEqOrd.compare_eq_iff_eq,
    compareRevision?_eq_eq_iff, same, decide_eq_true_eq]
  cases a <;> cases b
  case revision.revision r s => simp [kind, named?, compareNamed?, isBound, revision?, canonical]
  case named.named n m =>
    simp only [kind, named?, compareNamed?, Named.compare_eq_eq_iff, isBound, revision?,
      canonical, named.injEq, and_true]
    exact and_iff_right_of_imp Named.rank_eq_of_canonical_eq
  case bound.bound b c =>
    simp only [kind, named?, compareNamed?, Named.compare_eq_eq_iff, isBound, revision?,
      canonical, bound.injEq, Bound.canonical, Bound.mk.injEq, Option.some.injEq, true_and]
    exact and_iff_right_of_imp fun h => Named.rank_eq_of_canonical_eq h.1
  -- a bare revision has another kind than a name, and what is bound differs from both
  case revision.named r n => cases n <;> simp [kind, named?, Named.kind, Kind.rank, canonical]
  case named.revision n r => cases n <;> simp [kind, named?, Named.kind, Kind.rank, canonical]
  all_goals simp [isBound, canonical]

theorem compare_of_kind {a b : Version}
    (h : [a.kind, b.kind].Sublist [.revision, .plain, .branch, .semver]) : a.compare b = .lt := by
  have hrank : a.kind.rank < b.kind.rank := by
    revert h
    cases a.kind <;> cases b.kind <;> decide
  rw [compare, Nat.compare_eq_lt.2 hrank]
  rfl

theorem compare_of_tag {a b : Version} {s t : Tag} (ha : a.tag? = some s) (hb : b.tag? = some t)
    (h : s.precedence t ≠ .eq) : a.compare b = s.precedence t := by
  have hnamed : ∀ {v : Version} {t : Tag}, v.tag? = some t → v.named? = some (.semver t) := by
    intro v t ht
    obtain ⟨n, hn, htag⟩ := Option.bind_eq_some_iff.1 ht
    cases n <;> simp_all [Named.tag?]
  have htags : compareNamed? (some (.semver s)) (some (.semver t)) = s.precedence t :=
    then_eq_left fun he => absurd he h
  rw [compare, kind, kind, hnamed ha, hnamed hb, htags, then_eq_left fun he => absurd he h]
  rfl

theorem compare_bound (n : Named) (r : Revision) : compare (.named n) (.bound ⟨n, r⟩) = .lt := by
  have hn : n.compare n = .eq := ReflCmp.compare_self
  simp only [compare, kind, named?, compareNamed?, hn, ReflOrd.compare_self, Ordering.eq_then]
  rfl

theorem compare_trichotomy (a b : Version) :
    (a.compare b = .lt ∧ a.same b = false ∧ b.compare a ≠ .lt) ∨
    (a.compare b ≠ .lt ∧ a.same b = true ∧ b.compare a ≠ .lt) ∨
    (a.compare b ≠ .lt ∧ a.same b = false ∧ b.compare a = .lt) := by
  have hsame : a.same b = decide (a.compare b = .eq) := by
    rw [Bool.eq_iff_iff, decide_eq_true_eq, compare_eq_eq_iff]
  have hswap : b.compare a = (a.compare b).swap := OrientedCmp.eq_swap
  rw [hsame, hswap]
  cases a.compare b <;> decide

/-- The order on versions is total up to the flag of a branch. It puts the kinds in order,
semver tags of different precedence in the order of precedence, and a name before the
versions bound to it. -/
theorem compare_total (a b c : Version) :
    ((a.compare b = .lt ∧ a.same b = false ∧ b.compare a ≠ .lt) ∨
      (a.compare b ≠ .lt ∧ a.same b = true ∧ b.compare a ≠ .lt) ∨
      (a.compare b ≠ .lt ∧ a.same b = false ∧ b.compare a = .lt)) ∧
    (a.compare b = .eq ↔ a.same b = true) ∧
    (a.compare b = .lt → b.compare c = .lt → a.compare c = .lt) ∧
    (a.compare b ≠ .gt → b.compare c ≠ .gt → a.compare c ≠ .gt) ∧
    ([a.kind, b.kind].Sublist [.revision, .plain, .branch, .semver] → a.compare b = .lt) ∧
    (∀ s t, a.tag? = some s → b.tag? = some t → s.precedence t ≠ .eq →
      a.compare b = s.precedence t) ∧
    ∀ n r, compare (.named n) (.bound ⟨n, r⟩) = .lt := by
  refine ⟨a.compare_trichotomy b, compare_eq_eq_iff, TransCmp.lt_trans, ?_, compare_of_kind,
    fun _ _ => compare_of_tag, compare_bound⟩
  simpa only [Ordering.isLE_iff_ne_gt] using @TransCmp.isLE_trans _ Version.compare _ a b c

/-- A bare revision, a plain tag, a pre-release and a release bound to the revision. -/
theorem compare_total_of_kinds :
    compare (.revision ⟨"ff"⟩) (.named (.plain "nightly")) = .lt ∧
      compare (.named (.plain "nightly")) (.named (.ofTag "1.0.0-rc.1")) = .lt ∧
      compare (.revision ⟨"ff"⟩) (.named (.ofTag "1.0.0-rc.1")) = .lt ∧
      compare (.named (.ofTag "1.0.0-rc.1")) (.bound ⟨.ofTag "v1.0", ⟨"ff"⟩⟩) = .lt := by
  have htags : ((tag? (.named (.ofTag "1.0.0-rc.1"))).bind fun s =>
      (tag? (.bound ⟨.ofTag "v1.0", ⟨"ff"⟩⟩)).map s.precedence) = some .lt := by decide +kernel
  obtain ⟨s, hs, ht⟩ := Option.bind_eq_some_iff.1 htags
  obtain ⟨t, ht, hlt⟩ := Option.map_eq_some_iff.1 ht
  obtain ⟨-, -, htrans, -, hkind, -⟩ := compare_total (.revision ⟨"ff"⟩) (.named (.plain "nightly"))
    (.named (.ofTag "1.0.0-rc.1"))
  obtain ⟨-, -, -, -, hkind', -⟩ :=
    compare_total (.named (.plain "nightly")) (.named (.ofTag "1.0.0-rc.1")) (.revision ⟨"ff"⟩)
  obtain ⟨-, -, -, -, -, hprecedence, -⟩ := compare_total (.named (.ofTag "1.0.0-rc.1"))
    (.bound ⟨.ofTag "v1.0", ⟨"ff"⟩⟩) (.revision ⟨"ff"⟩)
  have hfirst := hkind (by decide +kernel)
  have hsecond := hkind' (by decide +kernel)
  refine ⟨hfirst, hsecond, htrans hfirst hsecond, ?_⟩
  rw [hprecedence s t hs ht (by rw [hlt]; decide), hlt]

end Version

end Depsolve
