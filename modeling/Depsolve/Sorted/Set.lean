/-!
# Sorted sets

A finite set kept as the strictly ascending list of its elements, so that two sets with the same
elements are equal and a set is enumerated in ascending order.

`SortedSet.mem_insert`, `SortedSet.mem_ofList` and `SortedSet.mem_union` say which elements the
operations give; `SortedSet.ext` says that the elements determine the set.
-/

namespace Depsolve

/-- A finite set as the strictly ascending list of its elements. -/
structure SortedSet (α : Type) [LT α] where
  toList : List α
  /-- Each element is smaller than all that follow it. -/
  ascending : toList.Pairwise (· < ·)

namespace SortedSet

set_option linter.unusedSectionVars false

variable {α : Type} [LE α] [LT α] [DecidableLT α] [Std.IsLinearOrder α] [Std.LawfulOrderLT α]

/-- Two sets are equal once their enumerations are. -/
theorem eq_of_toList_eq {s t : SortedSet α} (h : s.toList = t.toList) : s = t := by
  cases s
  cases t
  cases h
  rfl

instance [DecidableEq α] : DecidableEq (SortedSet α) := fun s t =>
  if h : s.toList = t.toList then .isTrue (eq_of_toList_eq h)
  else .isFalse fun e => h (congrArg toList e)

/-- The set without elements. -/
def empty : SortedSet α := ⟨[], .nil⟩

instance : EmptyCollection (SortedSet α) := ⟨empty⟩

instance : Inhabited (SortedSet α) := ⟨empty⟩

instance : Membership α (SortedSet α) := ⟨fun s a => a ∈ s.toList⟩

/-- Whether an element is in the set. -/
def contains [DecidableEq α] (s : SortedSet α) (a : α) : Bool :=
  s.toList.contains a

/-- Whether the set has no element. -/
def isEmpty (s : SortedSet α) : Bool :=
  s.toList.isEmpty

/-- The number of elements. -/
def size (s : SortedSet α) : Nat :=
  s.toList.length

/-- The element put at its place in an ascending list, unless it is there. -/
def insertInto (a : α) : List α → List α
  | [] => [a]
  | x :: xs => if a < x then a :: x :: xs else if x < a then x :: insertInto a xs else x :: xs

theorem mem_insertInto {a b : α} {l : List α} : b ∈ insertInto a l ↔ b = a ∨ b ∈ l := by
  induction l with
  | nil => simp [insertInto]
  | cons x xs ih =>
    simp only [insertInto]
    split
    · simp
    · split
      · simp [ih, or_left_comm]
      · rename_i hax hxa
        obtain h | h | h := Std.lt_trichotomy a x
        · exact absurd h hax
        · simp [h]
        · exact absurd h hxa

theorem pairwise_insertInto {a : α} {l : List α} (h : l.Pairwise (· < ·)) :
    (insertInto a l).Pairwise (· < ·) := by
  induction l with
  | nil => simp [insertInto]
  | cons x xs ih =>
    have hx := List.pairwise_cons.1 h
    simp only [insertInto]
    split
    · rename_i hax
      refine List.pairwise_cons.2 ⟨?_, h⟩
      intro b hb
      rcases List.mem_cons.1 hb with rfl | hb
      · exact hax
      · exact Std.lt_trans hax (hx.1 b hb)
    · split
      · rename_i hxa
        refine List.pairwise_cons.2 ⟨?_, ih hx.2⟩
        intro b hb
        rcases mem_insertInto.1 hb with rfl | hb
        · exact hxa
        · exact hx.1 b hb
      · exact h

/-- The set with one more element. -/
def insert (s : SortedSet α) (a : α) : SortedSet α :=
  ⟨insertInto a s.toList, pairwise_insertInto s.ascending⟩

/-- The set of the elements of a list. -/
def ofList (l : List α) : SortedSet α :=
  l.foldl insert empty

/-- The elements of either set. -/
def union (s t : SortedSet α) : SortedSet α :=
  t.toList.foldl insert s

/-- The elements that satisfy `p`. -/
def filter (p : α → Bool) (s : SortedSet α) : SortedSet α :=
  ⟨s.toList.filter p, s.ascending.filter p⟩

/-- The elements of the first set that are not in the second. -/
def diff [DecidableEq α] (s t : SortedSet α) : SortedSet α :=
  s.filter fun a => ! t.contains a

/-- The greatest element. -/
def max? (s : SortedSet α) : Option α :=
  s.toList.getLast?

theorem contains_iff_mem [DecidableEq α] {s : SortedSet α} {a : α} :
    s.contains a = true ↔ a ∈ s :=
  List.contains_iff_mem

theorem mem_insert {s : SortedSet α} {a b : α} : b ∈ s.insert a ↔ b = a ∨ b ∈ s :=
  mem_insertInto

theorem mem_foldl_insert {l : List α} {s : SortedSet α} {b : α} :
    b ∈ l.foldl insert s ↔ b ∈ s ∨ b ∈ l := by
  induction l generalizing s with
  | nil => simp
  | cons x xs ih =>
    rw [List.foldl_cons, ih, mem_insert, List.mem_cons]
    grind

theorem mem_ofList {l : List α} {b : α} : b ∈ ofList l ↔ b ∈ l := by
  have h : ¬ b ∈ (empty : SortedSet α) := List.not_mem_nil
  simp [ofList, mem_foldl_insert, h]

theorem mem_union {s t : SortedSet α} {b : α} : b ∈ s.union t ↔ b ∈ s ∨ b ∈ t :=
  mem_foldl_insert

theorem nodup_toList (s : SortedSet α) : s.toList.Nodup := by
  refine List.Pairwise.imp (fun {a b} (h : a < b) => ?_) s.ascending
  rintro rfl
  exact Std.lt_irrefl h

/-- The elements determine the set. -/
theorem ext {s t : SortedSet α} (h : ∀ a, a ∈ s ↔ a ∈ t) : s = t := by
  apply eq_of_toList_eq
  refine List.Perm.eq_of_pairwise ?_ s.ascending t.ascending ?_
  · intro a b _ _ hab hba
    exact absurd hba (Std.not_gt_of_lt hab)
  · exact (List.perm_ext_iff_of_nodup s.nodup_toList t.nodup_toList).2 h

theorem ofList_toList (s : SortedSet α) : ofList s.toList = s :=
  ext fun _ => mem_ofList

@[simp]
theorem not_mem_empty {a : α} : ¬ a ∈ (empty : SortedSet α) :=
  List.not_mem_nil

@[simp]
theorem mem_toList {s : SortedSet α} {a : α} : a ∈ s.toList ↔ a ∈ s := Iff.rfl

theorem mem_filter {p : α → Bool} {s : SortedSet α} {a : α} :
    a ∈ s.filter p ↔ a ∈ s ∧ p a = true :=
  List.mem_filter

theorem mem_diff [DecidableEq α] {s t : SortedSet α} {a : α} : a ∈ s.diff t ↔ a ∈ s ∧ ¬ a ∈ t := by
  rw [diff, mem_filter, ← contains_iff_mem (s := t)]
  simp

theorem isEmpty_iff {s : SortedSet α} : s.isEmpty = true ↔ ∀ a, ¬ a ∈ s := by
  rw [isEmpty, List.isEmpty_iff, List.eq_nil_iff_forall_not_mem]
  rfl

theorem exists_mem_of_not_isEmpty {s : SortedSet α} (h : ¬ s.isEmpty = true) : ∃ a, a ∈ s := by
  rw [isEmpty_iff] at h
  simpa using h

/-- The greatest element is in the set. -/
theorem mem_of_max? {s : SortedSet α} {a : α} (h : s.max? = some a) : a ∈ s :=
  List.mem_of_getLast? h

/-- No element is greater than the greatest. -/
theorem not_lt_of_max? {s : SortedSet α} {a b : α} (h : s.max? = some a) (hb : b ∈ s) :
    ¬ a < b := by
  obtain ⟨l, hl⟩ := s
  obtain ⟨init, rfl⟩ := List.getLast?_eq_some_iff.1 (show l.getLast? = some a from h)
  have hlast := (List.pairwise_append.1 hl).2.2
  rcases List.mem_append.1 (show b ∈ init ++ [a] from hb) with hb | hb
  · exact Std.not_gt_of_lt (hlast b hb a (by simp))
  · obtain rfl : b = a := by simpa using hb
    exact Std.lt_irrefl

theorem eq_empty_of_max? {s : SortedSet α} (h : s.max? = none) : ∀ a, ¬ a ∈ s := by
  rw [max?, List.getLast?_eq_none_iff] at h
  intro a ha
  rw [← mem_toList, h] at ha
  simp at ha

end SortedSet

/-- A list that is sorted by a key never has a greater key before a smaller one. -/
theorem pairwise_mergeSort_key {α β : Type} [LE β] [LT β] [DecidableLT β] [Std.IsLinearOrder β]
    [Std.LawfulOrderLT β] (key : α → β) (l : List α) :
    (l.mergeSort fun a b => ! decide (key b < key a)).Pairwise fun a b => ¬ key b < key a := by
  have hsorted : (l.mergeSort fun a b => ! decide (key b < key a)).Pairwise fun a b =>
      (! decide (key b < key a)) = true := by
    refine List.pairwise_mergeSort (fun a b c hab hbc => ?_) (fun a b => ?_) l
    · simp only [Bool.not_eq_true', decide_eq_false_iff_not] at *
      grind
    · simp only [Bool.or_eq_true, Bool.not_eq_true', decide_eq_false_iff_not]
      grind
  exact hsorted.imp fun h => by simpa using h

end Depsolve
