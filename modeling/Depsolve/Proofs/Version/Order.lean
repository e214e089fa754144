import Depsolve.Preference

/-!
# The orders on versions are total

`Semver.precedence` is a total preorder, in which versions tie that differ in their build
identifiers alone. Both orders of preference are total orders: named versions that compare as equal
are the same. A sorted list of versions is therefore determined by its members and how often each of
them occurs (`Preference.sort_eq_of_perm`), and the element that comes first is its head
(`firstMin?_eq_head?`).
-/

namespace Depsolve

open Std

variable {α β : Type}

/-- The values of a function are compared in an order as good as the one they are compared by. -/
theorem transCmp_comap (cmp : β → β → Ordering) [TransCmp cmp] (f : α → β) :
    TransCmp fun a b => cmp (f a) (f b) where
  eq_swap := OrientedCmp.eq_swap
  isLE_trans := TransCmp.isLE_trans

theorem transCmp_of_eq {cmp cmp' : α → α → Ordering} (h : ∀ a b, cmp a b = cmp' a b)
    (hcmp : TransCmp cmp') : TransCmp cmp := by
  obtain rfl : cmp = cmp' := funext fun a => funext (h a)
  exact hcmp

/-- The second order matters only where the first one ties. -/
theorem then_congr {first second third : Ordering} (h : first = .eq → second = third) :
    first.then second = first.then third := by
  cases first with
  | lt => rfl
  | eq => exact h rfl
  | gt => rfl

theorem then_eq_left {first second : Ordering} (h : first = .eq → second = .eq) :
    first.then second = first := by
  rw [then_congr h, Ordering.then_eq]

/-! ## The element that comes first -/

section FirstMin

variable {cmp : α → α → Ordering} {l : List α} {a : α}

theorem firstMin?_eq_none_iff : firstMin? cmp l = none ↔ l = [] := by
  cases l with
  | nil => exact ⟨fun _ => rfl, fun _ => rfl⟩
  | cons b l => simp [firstMin?]

theorem mem_of_firstMin? (h : firstMin? cmp l = some a) : a ∈ l := by
  cases l with
  | nil => exact nomatch h
  | cons b l =>
    have hfold : ∀ (l : List α) (best : α),
        l.foldl (fun best b => if cmp b best = .lt then b else best) best ∈ best :: l := by
      intro l
      induction l with
      | nil => exact fun best => List.mem_cons_self
      | cons c l ih =>
        intro best
        rw [List.foldl_cons]
        split
        · exact List.mem_cons_of_mem _ (ih c)
        · exact (List.mem_cons.1 (ih best)).elim (fun he => by rw [he]; exact List.mem_cons_self)
            fun hl => List.mem_cons_of_mem _ (List.mem_cons_of_mem _ hl)
    obtain rfl := Option.some.inj h
    exact hfold l b

/-- No element comes before the one that is found. -/
theorem not_lt_of_firstMin? [TransCmp cmp] (h : firstMin? cmp l = some a) :
    ∀ b ∈ l, cmp b a ≠ .lt := by
  have hfold : ∀ (l : List α) (best : α), ∀ b ∈ best :: l,
      (cmp (l.foldl (fun best b => if cmp b best = .lt then b else best) best) b).isLE = true := by
    intro l
    induction l with
    | nil =>
      intro best b hb
      obtain rfl := List.mem_singleton.1 hb
      exact ReflCmp.isLE_rfl
    | cons c l ih =>
      intro best
      rw [List.foldl_cons]
      -- the better one of `best` and `c` comes before both of them
      obtain ⟨better, hbetter, hbest, hc⟩ : ∃ better,
        (if cmp c best = .lt then c else best) = better ∧
          (cmp better best).isLE = true ∧ (cmp better c).isLE = true := by
        split
        · rename_i hlt
          exact ⟨c, rfl, Ordering.isLE_of_eq_lt hlt, ReflCmp.isLE_rfl⟩
        · rename_i hlt
          exact ⟨best, rfl, ReflCmp.isLE_rfl,
            OrientedCmp.isGE_iff_isLE.1 (Ordering.isGE_iff_ne_lt.2 hlt)⟩
      rw [hbetter]
      have hfirst := ih better better List.mem_cons_self
      rintro b hb
      rcases List.mem_cons.1 hb with rfl | hb
      · exact TransCmp.isLE_trans hfirst hbest
      rcases List.mem_cons.1 hb with rfl | hb
      · exact TransCmp.isLE_trans hfirst hc
      · exact ih better b (List.mem_cons_of_mem _ hb)
  cases l with
  | nil => exact nomatch h
  | cons first l =>
    obtain rfl := Option.some.inj h
    intro b hb
    exact Ordering.isGE_iff_ne_lt.1 (OrientedCmp.isGE_iff_isLE.2 (hfold l first b hb))

/-- The element that comes first stands at the head of the sorted list. -/
theorem firstMin?_eq_head? [TransCmp cmp] [LawfulEqCmp cmp] {sorted : List α}
    (hperm : sorted.Perm l) (hsorted : sorted.Pairwise fun a b => (cmp a b).isLE = true) :
    firstMin? cmp l = sorted.head? := by
  cases sorted with
  | nil =>
    obtain rfl := hperm.nil_eq
    rfl
  | cons first rest =>
    obtain ⟨a, ha⟩ : ∃ a, firstMin? cmp l = some a := by
      refine Option.ne_none_iff_exists'.1 fun hnone => ?_
      rw [firstMin?_eq_none_iff] at hnone
      rw [hnone] at hperm
      exact nomatch hperm.eq_nil
    have hmem : first ∈ l := hperm.subset List.mem_cons_self
    have hge : (cmp a first).isLE = true :=
      OrientedCmp.isGE_iff_isLE.1 (Ordering.isGE_iff_ne_lt.2 (not_lt_of_firstMin? ha first hmem))
    have hle : (cmp first a).isLE = true := by
      rcases List.mem_cons.1 (hperm.symm.subset (mem_of_firstMin? ha)) with rfl | hrest
      · exact ReflCmp.isLE_rfl
      · exact List.rel_of_pairwise_cons hsorted hrest
    rw [ha, List.head?_cons, LawfulEqCmp.eq_of_compare (OrientedCmp.isLE_antisymm hge hle)]

end FirstMin

/-! ## Precedence -/

namespace Semver

instance {onNumeric : String → String → Ordering} [TransCmp onNumeric] :
    TransCmp (compareSegment onNumeric) where
  eq_swap {a b} := by
    unfold compareSegment
    cases isNumeric a <;> cases isNumeric b
    · exact @OrientedCmp.eq_swap _ Ord.compare _ a b
    · rfl
    · rfl
    · exact @OrientedCmp.eq_swap _ onNumeric _ a b
  isLE_trans {a b c} hab hbc := by
    unfold compareSegment at *
    cases ha : isNumeric a <;> cases hb : isNumeric b <;> cases hc : isNumeric c <;>
      simp only [ha, hb, hc] at *
    all_goals first | exact TransCmp.isLE_trans hab hbc | contradiction | rfl

instance {onNumeric : String → String → Ordering} [TransCmp onNumeric] [LawfulEqCmp onNumeric] :
    LawfulEqCmp (compareSegment onNumeric) where
  eq_of_compare {a b} h := by
    unfold compareSegment at h
    cases ha : isNumeric a <;> cases hb : isNumeric b <;> simp only [ha, hb, reduceCtorEq] at h
    · exact LawfulEqOrd.eq_of_compare h
    · exact LawfulEqCmp.eq_of_compare h

instance : TransCmp compareDigits :=
  inferInstanceAs (TransCmp (compareLex (compareOn String.length) compare))

instance : LawfulEqCmp compareDigits where
  eq_of_compare h := LawfulEqOrd.eq_of_compare (Ordering.then_eq_eq.1 h).2

instance : TransCmp comparePre where
  eq_swap {a b} := by
    have hlex := @OrientedCmp.eq_swap _ (List.compareLex (compareSegment compareDigits)) _ a b
    cases a <;> cases b
    · rfl
    · rfl
    · rfl
    · exact hlex
  isLE_trans {a b c} hab hbc := by
    have hlex := @TransCmp.isLE_trans _ (List.compareLex (compareSegment compareDigits)) _ a b c
    cases a <;> cases b <;> cases c
    all_goals first | exact hlex hab hbc | contradiction | rfl

instance : LawfulEqCmp comparePre where
  eq_of_compare {a b} h := by
    cases a <;> cases b
    · rfl
    · contradiction
    · contradiction
    · exact @LawfulEqCmp.eq_of_compare _ (List.compareLex (compareSegment compareDigits)) _ _ _ h

instance : TransCmp precedence :=
  haveI := transCmp_comap comparePre Semver.pre
  inferInstanceAs
    (TransCmp (compareLex (compareOn Semver.major) (compareLex (compareOn Semver.minor)
    (compareLex (compareOn Semver.patch) fun a b => comparePre a.pre b.pre))))

/-- Only build identifiers tell versions of one precedence apart. -/
theorem exists_build_of_precedence_eq {a b : Semver} (h : a.precedence b = .eq) :
    ∃ build, b = { a with build := build } := by
  obtain ⟨major, minor, patch, pre, _⟩ := a
  obtain ⟨major', minor', patch', pre', build⟩ := b
  simp only [precedence, Ordering.then_eq_eq] at h
  obtain ⟨hmajor, hminor, hpatch, hpre⟩ := h
  obtain rfl := LawfulEqOrd.eq_of_compare hmajor
  obtain rfl := LawfulEqOrd.eq_of_compare hminor
  obtain rfl := LawfulEqOrd.eq_of_compare hpatch
  obtain rfl := LawfulEqCmp.eq_of_compare hpre
  exact ⟨build, rfl⟩

end Semver

/-! ## Preferences -/

/-- A tag reads in one way. -/
theorem Tag.eq_of_text_eq {a b : Tag} (h : a.text = b.text) : a = b := by
  have hversion : a.version = b.version := by
    have hreads := a.reads
    rw [h, b.reads] at hreads
    exact (Except.ok.inj hreads).symm
  cases a
  cases b
  cases h
  cases hversion
  rfl

namespace Preference

/-- The version of a semver tag; other names have none. -/
def versions : Named → List Semver
  | .semver tag => [tag.version]
  | _ => []

instance (p : Preference) : TransCmp fun a b : Semver => p.orient (a.precedence b) where
  eq_swap {a b} := by
    cases p <;> exact congrArg _ OrientedCmp.eq_swap
  isLE_trans {a b c} hab hbc := by
    cases p with
    | upgrade =>
      have hswap : ∀ v w : Semver, (v.precedence w).swap = w.precedence v := fun v w =>
        OrientedCmp.eq_swap.symm
      simp only [orient, hswap] at *
      exact TransCmp.isLE_trans hbc hab
    | downgrade => exact @TransCmp.isLE_trans _ Semver.precedence _ a b c hab hbc

theorem kind_eq_of_rank_eq {a b : Named} (h : rank a = rank b) : a.kind = b.kind := by
  have hkind : ∀ n : Named, n.kind = if rank n ≤ 1 then .semver else if rank n ≤
      3 then .branch else .plain := by
    intro n
    unfold rank
    split
    · split <;> rfl
    · split <;> rfl
    · rfl
  rw [hkind a, hkind b, h]

/-- Names are compared by rank, then by precedence, then by spelling. -/
theorem compareNamed_eq (p : Preference) (a b : Named) : p.compareNamed a b =
    (Ord.compare (rank a) (rank b)).then
      ((List.compareLex (fun v w => p.orient (v.precedence w)) (versions a) (versions b)).then
        (Ord.compare a.name b.name)) := by
  refine then_congr fun hrank => ?_
  -- names of one rank are of one kind
  have hkind := kind_eq_of_rank_eq (LawfulEqOrd.eq_of_compare hrank)
  cases a <;> cases b <;> simp only [Named.kind, reduceCtorEq] at hkind
  · rfl
  · rfl
  · simp only [compareWithin, versions, List.compareLex_cons_cons, List.compareLex_nil_nil,
      Ordering.then_eq]
    rfl

instance (p : Preference) : TransCmp p.compareNamed :=
  haveI := transCmp_comap (List.compareLex fun v w : Semver => p.orient (v.precedence w)) versions
  transCmp_of_eq p.compareNamed_eq
    (inferInstanceAs (TransCmp (compareLex (compareOn rank) (compareLex
    (fun a b => List.compareLex (fun v w : Semver => p.orient (v.precedence w))
      (versions a) (versions b))
    (compareOn Named.name)))))

theorem eq_of_rank_eq {a b : Named} (hrank : rank a = rank b) (hname : a.name = b.name) :
    a = b := by
  have hkind := kind_eq_of_rank_eq hrank
  cases a <;> cases b <;> simp only [Named.kind, reduceCtorEq] at hkind
  case branch.branch a isDefault b isDefault' =>
    obtain rfl : a = b := hname
    cases isDefault <;> cases isDefault' <;> first | rfl | simp [rank] at hrank
  case plain.plain a b =>
    obtain rfl : a = b := hname
    rfl
  case semver.semver a b => rw [Tag.eq_of_text_eq hname]

instance (p : Preference) : TransCmp p.compare :=
  haveI := transCmp_comap p.compareNamed Bound.named
  inferInstanceAs (TransCmp (compareLex (fun a b : Bound => p.compareNamed a.named b.named)
    (compareOn fun b : Bound => b.revision.text)))

instance (p : Preference) : LawfulEqCmp p.compare where
  eq_of_compare {a b} h := by
    unfold compare at h
    rw [compareNamed_eq, Ordering.then_eq_eq, Ordering.then_eq_eq, Ordering.then_eq_eq] at h
    obtain ⟨⟨hrank, -, hname⟩, hrevision⟩ := h
    obtain ⟨named, ⟨text⟩⟩ := a
    obtain ⟨named', ⟨text'⟩⟩ := b
    obtain rfl := eq_of_rank_eq (LawfulEqOrd.eq_of_compare hrank) (LawfulEqOrd.eq_of_compare hname)
    obtain rfl := LawfulEqOrd.eq_of_compare hrevision
    rfl

theorem sort_perm (p : Preference) (versions : List Bound) : (p.sort versions).Perm versions :=
  List.mergeSort_perm _ _

theorem pairwise_sort (p : Preference) (versions : List Bound) :
    (p.sort versions).Pairwise fun a b => (p.compare a b).isLE = true := by
  apply List.pairwise_mergeSort
  · intro a b c hab hbc
    exact TransCmp.isLE_trans hab hbc
  · intro a b
    have hswap : p.compare a b = (p.compare b a).swap := OrientedCmp.eq_swap
    rw [hswap]
    cases p.compare b a <;> rfl

/-- However some versions are listed, they are sorted in the same way. -/
theorem sort_eq_of_perm (p : Preference) {versions versions' : List Bound}
    (h : versions.Perm versions') : p.sort versions = p.sort versions' := by
  have hperm : (p.sort versions).Perm (p.sort versions') :=
    ((p.sort_perm versions).trans h).trans (p.sort_perm versions').symm
  apply List.Perm.eq_of_pairwise _ (p.pairwise_sort versions) (p.pairwise_sort versions') hperm
  intro a b _ _ hab hba
  exact LawfulEqCmp.eq_of_compare (OrientedCmp.isLE_antisymm hab hba)

end Preference

end Depsolve
