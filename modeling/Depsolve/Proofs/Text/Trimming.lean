import Depsolve.Proofs.Text.Stretches
import Mathlib.Data.List.TakeWhile

/-!
# White space at the ends

Trimming drops white space that is put before a text or behind it (`trim_append_of_blank`), and
leaves nothing only of a text that has nothing else (`isBlankText_trimmed_eq`).
-/

namespace Depsolve.Text

variable {c : Char} {cs back : List Char}

theorem trim_cons_of_blank (h : isBlank c = true) : trim (c :: cs) = trim cs := by
  rw [trim, trim, List.dropWhile_cons_of_pos h]

/-- White space behind a text does not count. -/
theorem trim_append_of_blank (hback : ∀ c ∈ back, isBlank c = true) :
    trim (cs ++ back) = trim cs := by
  have hreverse : ∀ c ∈ back.reverse, isBlank c = true :=
    fun c hc => hback c (List.mem_reverse.1 hc)
  unfold trim
  rw [List.dropWhile_append]
  split
  · rename_i hblank
    rw [List.dropWhile_eq_nil_iff.2 hback, List.isEmpty_iff.1 hblank]
  · rw [List.reverse_append, List.dropWhile_append_of_pos hreverse]

theorem trim_of_trimmed {s : String} (h : trimmed s = s) : trim s.toList = s.toList := by
  have hchars := congrArg String.toList h
  rwa [trimmed, String.toList_ofList] at hchars

theorem length_trim_le (cs : List Char) : (trim cs).length ≤ cs.length := by
  obtain ⟨front, back, hcs, -, -⟩ := exists_trim cs
  have hlength := congrArg List.length hcs
  rw [List.length_append, List.length_append] at hlength
  omega

theorem trim_of_blank_append {front : List Char} (hfront : ∀ c ∈ front, isBlank c = true) :
    trim (front ++ cs) = trim cs := by
  rw [trim, trim, List.dropWhile_append_of_pos hfront]

/-- A trimmed text of one word has no white space. -/
theorem isBlank_of_one_stretch (htrim : trim cs = cs) (hone : (stretches isBlank cs).length ≤ 1) :
    ∀ c ∈ cs, isBlank c = false := by
  intro c hmem
  by_contra hblank
  have hblank : isBlank c = true := by simpa using hblank
  obtain ⟨front, back, rfl⟩ := List.append_of_mem hmem
  -- on either side of the white space stands something else
  have hfront : ∃ d ∈ front, isBlank d = false := by
    by_contra hnone
    have hall : ∀ d ∈ front, isBlank d = true := by simpa using hnone
    have hle := length_trim_le back
    rw [trim_of_blank_append hall, trim_cons_of_blank hblank] at htrim
    rw [htrim, List.length_append, List.length_cons] at hle
    omega
  have hback : ∃ d ∈ back, isBlank d = false := by
    by_contra hnone
    have hall : ∀ d ∈ c :: back, isBlank d = true :=
      List.forall_mem_cons.2 ⟨hblank, by simpa using hnone⟩
    have hle := length_trim_le front
    rw [trim_append_of_blank hall] at htrim
    rw [htrim, List.length_append, List.length_cons] at hle
    omega
  obtain ⟨d, hd, hd'⟩ := hfront
  obtain ⟨e, he, he'⟩ := hback
  have hleft := List.length_pos_iff.2 (stretches_ne_nil hd hd')
  have hright := List.length_pos_iff.2 (stretches_ne_nil he he')
  rw [stretches_append hblank, List.length_append] at hone
  omega

/-- A text has something else than white space just if its trimmed text has. -/
theorem isBlankText_trimmed_eq (s : String) : isBlankText (trimmed s) = isBlankText s := by
  obtain ⟨front, back, hs, hfront, hback⟩ := exists_trim s.toList
  unfold isBlankText trimmed
  rw [String.toList_ofList]
  conv =>
    rhs
    rw [hs]
  rw [List.all_append, List.all_append, List.all_eq_true.2 hfront, List.all_eq_true.2 hback,
    Bool.true_and, Bool.and_true]

theorem trimmed_eq_of_isBlankText {s : String} (h : isBlankText s = true) : trimmed s = "" := by
  have hdrop : s.toList.dropWhile isBlank = [] :=
    List.dropWhile_eq_nil_iff.2 fun c hc => List.all_eq_true.1 h c hc
  rw [trimmed, trim, hdrop]
  rfl

theorem isBlankText_trimmed {s : String} (h : trimmed s ≠ "") :
    isBlankText (trimmed s) = false := by
  rw [isBlankText_trimmed_eq, Bool.eq_false_iff]
  exact fun hblank => h (trimmed_eq_of_isBlankText hblank)

end Depsolve.Text
