import Depsolve.Sorted.Set

/-!
# Sorted maps

A finite map kept as the list of its entries in strictly ascending order of their keys, so that maps
with the same answers are equal and a map is enumerated in the order of its keys.

`SortedMap.get?_insert` says what a look-up sees after a write; `SortedMap.ext` says that the
answers determine the map.
-/

namespace Depsolve

/-- A finite map as the list of its entries in strictly ascending order of their keys. -/
structure SortedMap (κ α : Type) [LT κ] where
  entries : List (κ × α)
  /-- Each key is smaller than all that follow it. -/
  ascending : entries.Pairwise (·.1 < ·.1)

namespace SortedMap

set_option linter.unusedSectionVars false

variable {κ α β : Type} [LE κ] [LT κ] [DecidableLT κ] [Std.IsLinearOrder κ] [Std.LawfulOrderLT κ]

/-- Two maps are equal once their enumerations are. -/
theorem eq_of_entries_eq {m n : SortedMap κ α} (h : m.entries = n.entries) : m = n := by
  cases m
  cases n
  cases h
  rfl

instance [DecidableEq κ] [DecidableEq α] : DecidableEq (SortedMap κ α) := fun m n =>
  if h : m.entries = n.entries then .isTrue (eq_of_entries_eq h)
  else .isFalse fun e => h (congrArg entries e)

/-- The map without entries. -/
def empty : SortedMap κ α := ⟨[], .nil⟩

instance : EmptyCollection (SortedMap κ α) := ⟨empty⟩

instance : Inhabited (SortedMap κ α) := ⟨empty⟩

/-- Whether the map has no entry. -/
def isEmpty (m : SortedMap κ α) : Bool :=
  m.entries.isEmpty

/-- The number of entries. -/
def size (m : SortedMap κ α) : Nat :=
  m.entries.length

/-- The keys in ascending order. -/
def keys (m : SortedMap κ α) : List κ :=
  m.entries.map (·.1)

/-- The values in ascending order of their keys. -/
def values (m : SortedMap κ α) : List α :=
  m.entries.map (·.2)

/-- The set of the keys. -/
def keySet (m : SortedMap κ α) : SortedSet κ :=
  ⟨m.keys, List.pairwise_map.2 m.ascending⟩

/-- The value under a key. -/
def get? [DecidableEq κ] (m : SortedMap κ α) (k : κ) : Option α :=
  m.entries.lookup k

/-- Whether a key has a value. -/
def contains [DecidableEq κ] (m : SortedMap κ α) (k : κ) : Bool :=
  (m.get? k).isSome

/-- The entry put at its place in a list that ascends in its keys; it replaces one of the same
key. -/
def insertInto (k : κ) (v : α) : List (κ × α) → List (κ × α)
  | [] => [(k, v)]
  | x :: xs =>
    if k < x.1 then (k, v) :: x :: xs
    else if x.1 < k then x :: insertInto k v xs
    else (k, v) :: xs

theorem mem_of_mem_insertInto {k : κ} {v : α} {x : κ × α} {l : List (κ × α)}
    (h : x ∈ insertInto k v l) : x = (k, v) ∨ x ∈ l := by
  induction l with
  | nil => simpa [insertInto] using h
  | cons y ys ih =>
    simp only [insertInto] at h
    split at h
    · simpa using h
    · split at h
      · rcases List.mem_cons.1 h with rfl | h
        · simp
        · rcases ih h with rfl | h
          · simp
          · simp [h]
      · rcases List.mem_cons.1 h with rfl | h
        · simp
        · simp [h]

theorem pairwise_insertInto {k : κ} {v : α} {l : List (κ × α)} (h : l.Pairwise (·.1 < ·.1)) :
    (insertInto k v l).Pairwise (·.1 < ·.1) := by
  induction l with
  | nil => simp [insertInto]
  | cons x xs ih =>
    have hx := List.pairwise_cons.1 h
    simp only [insertInto]
    split
    · rename_i hkx
      refine List.pairwise_cons.2 ⟨?_, h⟩
      intro y hy
      rcases List.mem_cons.1 hy with rfl | hy
      · exact hkx
      · exact Std.lt_trans hkx (hx.1 y hy)
    · split
      · rename_i hxk
        refine List.pairwise_cons.2 ⟨?_, ih hx.2⟩
        intro y hy
        rcases mem_of_mem_insertInto hy with rfl | hy
        · exact hxk
        · exact hx.1 y hy
      · rename_i hkx hxk
        have hk : k = x.1 := by
          obtain h | h | h := Std.lt_trichotomy k x.1
          · exact absurd h hkx
          · exact h
          · exact absurd h hxk
        exact List.pairwise_cons.2 ⟨fun y hy => hk ▸ hx.1 y hy, hx.2⟩

/-- The map with one more entry; it replaces one of the same key. -/
def insert (m : SortedMap κ α) (k : κ) (v : α) : SortedMap κ α :=
  ⟨insertInto k v m.entries, pairwise_insertInto m.ascending⟩

/-- The map of a list of entries; of two with the same key the later one counts. -/
def ofList (l : List (κ × α)) : SortedMap κ α :=
  l.foldl (fun m (k, v) => m.insert k v) empty

/-- The entries whose key satisfies `p`. -/
def filterKeys (p : κ → Bool) (m : SortedMap κ α) : SortedMap κ α :=
  ⟨m.entries.filter fun x => p x.1, m.ascending.filter _⟩

/-- The map without a key. -/
def erase [DecidableEq κ] (m : SortedMap κ α) (k : κ) : SortedMap κ α :=
  m.filterKeys (· ≠ k)

/-- The map with `f` applied to every value. -/
def mapValues (f : α → β) (m : SortedMap κ α) : SortedMap κ β :=
  ⟨m.entries.map fun x => (x.1, f x.2), List.pairwise_map.2 m.ascending⟩

theorem get?_empty [DecidableEq κ] (k : κ) : (empty : SortedMap κ α).get? k = none := rfl

/-- A look-up sees the entry written last under its key. -/
theorem get?_insert [DecidableEq κ] (m : SortedMap κ α) (k : κ) (v : α) (k' : κ) :
    (m.insert k v).get? k' = if k' = k then some v else m.get? k' := by
  simp only [get?, insert]
  generalize m.entries = l
  induction l with
  | nil =>
    by_cases h : k' = k
    · simp [insertInto, h]
    · have hb : (k' == k) = false := by simpa using h
      simp [insertInto, List.lookup_cons, h, hb]
  | cons x xs ih =>
    obtain ⟨a, w⟩ := x
    simp only [insertInto]
    split
    · by_cases h : k' = k
      · simp [h]
      · have hb : (k' == k) = false := by simpa using h
        simp [List.lookup_cons, h, hb]
    · split
      · rename_i hak
        by_cases ha : k' = a
        · have hne : ¬ a = k := fun e => Std.lt_irrefl (e ▸ hak)
          simp [ha, hne]
        · have hb : (k' == a) = false := by simpa using ha
          rw [List.lookup_cons, hb, List.lookup_cons, hb]
          exact ih
      · rename_i hka hak
        have hk : k = a := by
          obtain h | h | h := Std.lt_trichotomy k a
          · exact absurd h hka
          · exact h
          · exact absurd h hak
        subst hk
        by_cases h : k' = k
        · simp [h]
        · have hb : (k' == k) = false := by simpa using h
          simp [List.lookup_cons, h, hb]

theorem get?_eq_some_iff [DecidableEq κ] {m : SortedMap κ α} {k : κ} {v : α} :
    m.get? k = some v ↔ (k, v) ∈ m.entries := by
  obtain ⟨l, hl⟩ := m
  simp only [get?]
  induction l with
  | nil => simp
  | cons x xs ih =>
    obtain ⟨k', v'⟩ := x
    have hx := List.pairwise_cons.1 hl
    by_cases h : k = k'
    · subst h
      have hnot : ¬ (k, v) ∈ xs := fun hm => Std.lt_irrefl (hx.1 (k, v) hm)
      simp [hnot, eq_comm]
    · have hb : (k == k') = false := by simpa using h
      simp [List.lookup_cons, hb, ih hx.2, h]

/-- The answers to all look-ups determine the map. -/
theorem ext [DecidableEq κ] {m n : SortedMap κ α} (h : ∀ k, m.get? k = n.get? k) : m = n := by
  apply eq_of_entries_eq
  have hmem : ∀ x, x ∈ m.entries ↔ x ∈ n.entries := fun x => by
    rw [← get?_eq_some_iff (k := x.1) (v := x.2), h, get?_eq_some_iff]
  have hnodup : ∀ l : SortedMap κ α, l.entries.Nodup := fun l => by
    refine List.Pairwise.imp (fun {a b} (hab : a.1 < b.1) => ?_) l.ascending
    rintro rfl
    exact Std.lt_irrefl hab
  refine List.Perm.eq_of_pairwise ?_ m.ascending n.ascending ?_
  · intro a b _ _ hab hba
    exact absurd hba (Std.not_gt_of_lt hab)
  · exact (List.perm_ext_iff_of_nodup (hnodup m) (hnodup n)).2 hmem

/-- The entries of the map of a list are from the list. -/
theorem mem_of_mem_ofList [DecidableEq κ] {l : List (κ × α)} {x : κ × α}
    (h : x ∈ (ofList l).entries) : x ∈ l := by
  have hfold : ∀ (l : List (κ × α)) (m : SortedMap κ α),
      x ∈ (l.foldl (fun m (k, v) => m.insert k v) m).entries → x ∈ m.entries ∨ x ∈ l := by
    intro l
    induction l with
    | nil => exact fun m hm => .inl hm
    | cons y l ih =>
      intro m hm
      rcases ih _ hm with hm | hm
      · rcases mem_of_mem_insertInto hm with rfl | hm
        · exact .inr (List.mem_cons_self)
        · exact .inl hm
      · exact .inr (List.mem_cons_of_mem _ hm)
  exact (hfold l empty h).resolve_left List.not_mem_nil

/-- Each key of a list is a key of its map. -/
theorem exists_mem_ofList [DecidableEq κ] {l : List (κ × α)} {k : κ} {v : α} (h : (k, v) ∈ l) :
    ∃ w, (k, w) ∈ (ofList l).entries := by
  have hfold : ∀ (l : List (κ × α)) (m : SortedMap κ α), ((∃ w, m.get? k = some w) ∨
      ∃ w, (k, w) ∈ l) → ∃ w, (l.foldl (fun m (k, v) => m.insert k v) m).get? k = some w := by
    intro l
    induction l with
    | nil => exact fun m hm => hm.resolve_right (by simp)
    | cons y l ih =>
      intro m hm
      refine ih _ ?_
      rw [get?_insert]
      by_cases hk : k = y.1
      · exact .inl ⟨y.2, if_pos hk⟩
      · rw [if_neg hk]
        refine hm.imp_right fun ⟨w, hw⟩ => ⟨w, ?_⟩
        rcases List.mem_cons.1 hw with rfl | hw
        · exact absurd rfl hk
        · exact hw
  obtain ⟨w, hw⟩ := hfold l empty (.inr ⟨v, h⟩)
  exact ⟨w, get?_eq_some_iff.1 hw⟩

/-- The map of a list that ascends in its keys has just the entries of the list. -/
theorem ofList_of_ascending [DecidableEq κ] {l : List (κ × α)} (h : l.Pairwise (·.1 < ·.1)) :
    ofList l = ⟨l, h⟩ := by
  have hsub : ∀ {k v}, (ofList l).get? k = some v → (⟨l, h⟩ : SortedMap κ α).get? k = some v :=
    fun hget => get?_eq_some_iff.2 (mem_of_mem_ofList (get?_eq_some_iff.1 hget))
  refine ext fun k => ?_
  cases hget : (ofList l).get? k with
  | some v => exact (hsub hget).symm
  | none =>
    cases hl : (⟨l, h⟩ : SortedMap κ α).get? k with
    | none => rfl
    | some v =>
      obtain ⟨w, hw⟩ := exists_mem_ofList (get?_eq_some_iff.1 hl)
      rw [get?_eq_some_iff.2 hw] at hget
      exact nomatch hget

theorem ofList_entries [DecidableEq κ] (m : SortedMap κ α) : ofList m.entries = m :=
  ofList_of_ascending m.ascending

end SortedMap

end Depsolve
