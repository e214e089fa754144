import Depsolve.Digest.Signature
import Mathlib.Algebra.Group.Nat.Defs

/-!
# Framed texts are told apart

The bytes that are hashed for a list of texts determine the list. The first eight bytes are the
length of the first text, and as many bytes behind them are its UTF-8, so the first text can be
taken off the bytes in one way only (`frame_cons_append_inj`), whatever the texts have in them. By
induction on the list so can all of them (`exists_append_of_frame`), and lists with the same bytes
are the same (`frame_inj`).
-/

namespace Depsolve

variable {field field' : String} {fields fields' : List String} {rest : List UInt8}

/-! ## Lengths -/

@[simp]
theorem length_littleEndian (count n : Nat) : (littleEndian count n).length = count := by
  induction count generalizing n with
  | zero => rfl
  | succ count ih => rw [littleEndian, List.length_cons, ih]

/-- A number is read off its bytes, if there are enough of them. -/
theorem littleEndian_inj {count n m : Nat} (hn : n < 256 ^ count) (hm : m < 256 ^ count)
    (h : littleEndian count n = littleEndian count m) : n = m := by
  induction count generalizing n m with
  | zero =>
    rw [Nat.pow_zero] at hn hm
    omega
  | succ count ih =>
    -- the lowest byte is the remainder, and the others are the bytes of the quotient
    obtain ⟨hlow, hhigh⟩ := List.cons.inj h
    have hmod : n % 256 = m % 256 := by simpa using congrArg UInt8.toNat hlow
    have hdiv : n / 256 = m / 256 := by
      refine ih ?_ ?_ hhigh
      · exact Nat.div_lt_of_lt_mul (by rwa [Nat.pow_succ'] at hn)
      · exact Nat.div_lt_of_lt_mul (by rwa [Nat.pow_succ'] at hm)
    rw [← Nat.div_add_mod n 256, ← Nat.div_add_mod m 256, hdiv, hmod]

theorem utf8_inj : utf8 field = utf8 field' ↔ field = field' := by
  refine ⟨fun h => ?_, fun h => h ▸ rfl⟩
  exact String.toByteArray_inj.1 (ByteArray.ext (Array.toList_inj.1 h))

/-! ## Frames -/

theorem frame_cons (field : String) (fields : List String) :
    frame (field :: fields) =
      littleEndian 8 (utf8 field).length ++ (utf8 field ++ frame fields) := by
  rw [frame, List.flatMap_cons, List.append_assoc, frame]

theorem frame_cons_ne_nil (field : String) (fields : List String) :
    frame (field :: fields) ≠ [] := by
  rw [frame_cons]
  exact List.cons_ne_nil _ _

/-- The first text is taken off the bytes in one way, whatever follows. -/
theorem frame_cons_append_inj (hfield : (utf8 field).length < 2 ^ 64)
    (hfield' : (utf8 field').length < 2 ^ 64)
    (h : frame (field :: fields) ++ rest = frame (field' :: fields')) :
    field = field' ∧ frame fields ++ rest = frame fields' := by
  rw [frame_cons, frame_cons, List.append_assoc, List.append_assoc] at h
  obtain ⟨hlength, hrest⟩ := List.append_inj h (by rw [length_littleEndian, length_littleEndian])
  have hsame : (utf8 field).length = (utf8 field').length := littleEndian_inj hfield hfield' hlength
  obtain ⟨hbytes, hrest⟩ := List.append_inj hrest hsame
  exact ⟨utf8_inj.1 hbytes, hrest⟩

/-- If the bytes of a list start with those of another, the list starts with the other. -/
theorem exists_append_of_frame (h : ∀ field ∈ fields, (utf8 field).length < 2 ^ 64)
    (h' : ∀ field ∈ fields', (utf8 field).length < 2 ^ 64)
    (hframe : frame fields ++ rest = frame fields') :
    ∃ more, fields' = fields ++ more ∧ rest = frame more := by
  induction fields generalizing fields' with
  | nil => exact ⟨fields', rfl, hframe⟩
  | cons field fields ih =>
    cases fields' with
    | nil => exact absurd (List.append_eq_nil_iff.1 hframe).1 (frame_cons_ne_nil field fields)
    | cons field' fields' =>
      rw [List.forall_mem_cons] at h h'
      obtain ⟨rfl, hrest⟩ := frame_cons_append_inj h.1 h'.1 hframe
      obtain ⟨more, rfl, hmore⟩ := ih h.2 h'.2 hrest
      exact ⟨more, rfl, hmore⟩

/-- Lists of texts with the same bytes are the same. -/
theorem frame_inj (h : ∀ field ∈ fields, (utf8 field).length < 2 ^ 64)
    (h' : ∀ field ∈ fields', (utf8 field).length < 2 ^ 64) :
    frame fields = frame fields' ↔ fields = fields' := by
  refine ⟨fun hframe => ?_, fun hfields => hfields ▸ rfl⟩
  rw [← List.append_nil (frame fields)] at hframe
  obtain ⟨more, rfl, hmore⟩ := exists_append_of_frame h h' hframe
  cases more with
  | nil => exact (List.append_nil fields).symm
  | cons field more => exact absurd hmore.symm (frame_cons_ne_nil field more)

/-- A text that imitates the length of another one and the text behind it. -/
def imitation : String := "\x01\x00\x00\x00\x00\x00\x00\x00a"

/-- The imitation differs from the texts that it imitates in its own length only. -/
theorem frame_inj_of_imitation :
    (∀ field ∈ [imitation], (utf8 field).length < 2 ^ 64) ∧
    (∀ field ∈ ["", "a"], (utf8 field).length < 2 ^ 64) ∧
      (frame [imitation]).drop 8 = (frame ["", "a"]).drop 8 ∧
      frame [imitation] ≠ frame ["", "a"] := by
  have h : ∀ field ∈ [imitation], (utf8 field).length < 2 ^ 64 := by decide +kernel
  have h' : ∀ field ∈ ["", "a"], (utf8 field).length < 2 ^ 64 := by decide +kernel
  exact ⟨h, h', by decide +kernel, fun hframe => absurd ((frame_inj h h').1 hframe) (by decide)⟩

end Depsolve
