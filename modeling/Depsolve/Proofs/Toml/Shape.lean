import Depsolve.Toml.Reader
import Depsolve.Toml.Shape
import Depsolve.Toml.Writer

/-!
# Records as tables

A record is written as the table of those of its fields that have a value, and read back as the list
of all fields (`record?_eq`). Lists and tables of values are read back if each of the values is.

`ReadsBack` says of a document that its text is read back as it is. Values can be compared, so that
this can be decided for a given document.
-/

namespace Depsolve.Toml

/-- A document is read back from its text. -/
def ReadsBack (document : List (String × Value)) : Prop :=
  read (write document) = some document

/-! ## Equality -/

mutual

/-- Whether two values are the same. -/
def Value.same : Value → Value → Bool
  | .string s, .string t => s = t
  | .integer m, .integer n => m = n
  | .float s, .float t => s = t
  | .boolean a, .boolean b => a = b
  | .datetime s, .datetime t => s = t
  | .array l, .array m => sameItems l m
  | .table l, .table m => sameEntries l m
  | _, _ => false

/-- Whether two lists have the same values. -/
def sameItems : List Value → List Value → Bool
  | [], [] => true
  | v :: l, w :: m => v.same w && sameItems l m
  | _, _ => false

/-- Whether two tables have the same entries in the same order. -/
def sameEntries : List (String × Value) → List (String × Value) → Bool
  | [], [] => true
  | (k, v) :: l, (k', w) :: m => k = k' && v.same w && sameEntries l m
  | _, _ => false

end

mutual

theorem Value.same_iff : ∀ {v w : Value}, v.same w = true ↔ v = w
  | .string _, w => by cases w <;> simp [Value.same]
  | .integer _, w => by cases w <;> simp [Value.same]
  | .float _, w => by cases w <;> simp [Value.same]
  | .boolean _, w => by cases w <;> simp [Value.same]
  | .datetime _, w => by cases w <;> simp [Value.same]
  | .array l, w => by
    cases w with
    | array m => simp [Value.same, sameItems_iff (l := l) (m := m)]
    | _ => simp [Value.same]
  | .table l, w => by
    cases w with
    | table m => simp [Value.same, sameEntries_iff (l := l) (m := m)]
    | _ => simp [Value.same]

theorem sameItems_iff : ∀ {l m : List Value}, sameItems l m = true ↔ l = m
  | [], m => by cases m <;> simp [sameItems]
  | v :: l, m => by
    cases m with
    | nil => simp [sameItems]
    | cons w m => simp [sameItems, Value.same_iff (v := v) (w := w),
        sameItems_iff (l := l) (m := m)]

theorem sameEntries_iff : ∀ {l m : List (String × Value)}, sameEntries l m = true ↔ l = m
  | [], m => by cases m <;> simp [sameEntries]
  | (k, v) :: l, m => by
    cases m with
    | nil => simp [sameEntries]
    | cons e m =>
      obtain ⟨k', w⟩ := e
      simp [sameEntries, Value.same_iff (v := v) (w := w), sameEntries_iff (l := l) (m := m)]

end

instance : DecidableEq Value := fun _ _ => decidable_of_iff _ Value.same_iff

instance (document : List (String × Value)) : Decidable (ReadsBack document) :=
  inferInstanceAs (Decidable (read (write document) = some document))

/-! ## Records -/

/-- The entries of the fields that have a value. -/
def present (fields : List (String × Option Value)) : List (String × Value) :=
  fields.filterMap fun (key, value) => value.map fun v => (key, v)

variable {fields : List (String × Option Value)} {key : String} {value : Option Value}

theorem exists_of_mem_present {e : String × Value} (h : e ∈ present fields) :
    (e.1, some e.2) ∈ fields := by
  obtain ⟨⟨key, value⟩, hmem, he⟩ := List.mem_filterMap.1 h
  obtain ⟨v, rfl, rfl⟩ := Option.map_eq_some_iff.1 he
  exact hmem

theorem lookup_present_eq_none (h : key ∉ fields.map (·.1)) :
    (present fields).lookup key = none := by
  rw [List.lookup_eq_none_iff]
  rintro ⟨k, v⟩ hmem
  rw [bne_iff_ne]
  rintro rfl
  exact h (List.mem_map.2 ⟨_, exists_of_mem_present hmem, rfl⟩)

theorem lookup_present (hnodup : (fields.map (·.1)).Nodup) (h : (key, value) ∈ fields) :
    (present fields).lookup key = value := by
  induction fields with
  | nil => exact absurd h List.not_mem_nil
  | cons field fields ih =>
    obtain ⟨k, v?⟩ := field
    rw [List.map_cons, List.nodup_cons] at hnodup
    obtain ⟨hk, hnodup⟩ := hnodup
    rcases List.mem_cons.1 h with heq | htail
    · obtain ⟨rfl, rfl⟩ := Prod.mk.inj heq
      cases value with
      | none =>
        have hskip : present ((key, none) :: fields) = present fields := rfl
        rw [hskip]
        exact lookup_present_eq_none hk
      | some v =>
        have hput : present ((key, some v) :: fields) = (key, v) :: present fields := rfl
        rw [hput, List.lookup_cons_self]
    · have hne : (key == k) = false := by
        rw [beq_eq_false_iff_ne]
        rintro rfl
        exact hk (List.mem_map.2 ⟨_, htail, rfl⟩)
      cases v? with
      | none => exact ih hnodup htail
      | some v =>
        have hput : present ((k, some v) :: fields) = (k, v) :: present fields := rfl
        rw [hput, List.lookup_cons, hne]
        exact ih hnodup htail

/-- A record is read back from the table of its fields that have a value. -/
theorem record?_eq (keys : List String) {entries : List (String × Value)}
    (hentries : entries = present fields) (hkeys : fields.map (·.1) = keys) (hnodup : keys.Nodup) :
    record? keys (.table entries) = some (fields.map (·.2)) := by
  subst hentries hkeys
  unfold record?
  dsimp only
  split
  · rw [List.map_map]
    exact congrArg some (List.map_congr_left fun field hfield => lookup_present hnodup hfield)
  · rename_i hunknown
    refine absurd (List.all_eq_true.2 fun e he => ?_) hunknown
    exact List.contains_iff_mem.2 (List.mem_map.2 ⟨_, exists_of_mem_present he, rfl⟩)

/-! ## Lists and tables -/

theorem mapM_map_eq_some {α β : Type} {f : β → Option α} {g : α → β} {l : List α}
    (h : ∀ a ∈ l, f (g a) = some a) : (l.map g).mapM f = some l := by
  induction l with
  | nil => rfl
  | cons a l ih =>
    rw [List.map_cons, List.mapM_cons, h a List.mem_cons_self,
      ih fun b hb => h b (List.mem_cons_of_mem _ hb)]
    rfl

theorem list?_array {α : Type} {f : Value → Option α} {g : α → Value} {l : List α}
    (h : ∀ a ∈ l, f (g a) = some a) : list? f (.array (l.map g)) = some l :=
  mapM_map_eq_some h

theorem table?_table {α : Type} {f : Value → Option α} {g : α → Value} {l : List (String × α)}
    (h : ∀ e ∈ l, f (g e.2) = some e.2) :
    table? f (.table (l.map fun (k, a) => (k, g a))) = some l :=
  mapM_map_eq_some fun e he => by
    dsimp only
    rw [h e he]
    rfl

theorem natBelow?_integer {limit n : Nat} (h : n < limit) :
    natBelow? limit (.integer n) = some n := by
  unfold natBelow?
  dsimp only
  rw [if_pos ⟨Int.natCast_nonneg n, Int.ofNat_lt.2 h⟩, Int.toNat_natCast]

theorem lt_of_natBelow? {limit n : Nat} {v : Value} (h : natBelow? limit v = some n) :
    n < limit := by
  unfold natBelow? at h
  split at h
  · split at h
    · cases h
      omega
    · exact nomatch h
  · exact nomatch h

theorem exists_of_optional? {α : Type} {f : Value → Option α} {a : α}
    (h : optional? f value = some (some a)) : ∃ v, f v = some a := by
  cases value with
  | none => exact nomatch Option.some.inj h
  | some v =>
    obtain ⟨a', ha, heq⟩ := Option.map_eq_some_iff.1 h
    exact ⟨v, ha.trans heq⟩

theorem optional?_text? (text : Option String) :
    optional? text? (text.map .string) = some text := by
  cases text <;> rfl

end Depsolve.Toml
