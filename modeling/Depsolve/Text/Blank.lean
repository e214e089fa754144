/-!
# White space

The characters with the Unicode property `White_Space`, and the cutting of a text at them.
`Text.trim` drops them from both ends. Zero-width space (U+200B) and the byte order mark (U+FEFF) do
not have the property.
-/

namespace Depsolve.Text

/-- White space: the 25 characters with the Unicode property `White_Space`. -/
def isBlank (c : Char) : Bool :=
  let n := c.toNat
  (9 ≤ n && n ≤ 13) || n == 0x20 || n == 0x85 || n == 0xA0 || n == 0x1680 ||
    (0x2000 ≤ n && n ≤ 0x200A) || n == 0x2028 || n == 0x2029 || n == 0x202F || n == 0x205F ||
    n == 0x3000

/-- The characters without the white space at both ends. -/
def trim (cs : List Char) : List Char :=
  ((cs.dropWhile isBlank).reverse.dropWhile isBlank).reverse

/-- The text without the white space at both ends. -/
def trimmed (s : String) : String :=
  String.ofList (trim s.toList)

/-- What is left starts with no character that would be dropped. -/
theorem dropWhile_dropWhile (p : Char → Bool) (cs : List Char) :
    (cs.dropWhile p).dropWhile p = cs.dropWhile p := by
  induction cs with
  | nil => rfl
  | cons c cs ih =>
    by_cases h : p c = true
    · simp [h, ih]
    · simp [h]

/-- Trimming again changes nothing. -/
theorem trim_trim (cs : List Char) : trim (trim cs) = trim cs := by
  generalize hd : (cs.dropWhile isBlank).reverse.dropWhile isBlank = r
  have ht : trim cs = r.reverse := by rw [← hd]; rfl
  have hr : r.dropWhile isBlank = r := by rw [← hd]; exact dropWhile_dropWhile _ _
  have hfront : r.reverse.dropWhile isBlank = r.reverse := by
    cases hl : r.reverse with
    | nil => rfl
    | cons c l =>
      have hsuffix : r <:+ (cs.dropWhile isBlank).reverse := hd ▸ List.dropWhile_suffix isBlank
      have hprefix : (c :: l) <+: cs.dropWhile isBlank := by
        have := List.reverse_prefix.2 hsuffix
        rwa [List.reverse_reverse, hl] at this
      obtain ⟨t, ht⟩ := hprefix
      have hself := dropWhile_dropWhile isBlank cs
      rw [← ht, List.cons_append] at hself
      have hc : isBlank c = false := by
        refine Bool.eq_false_iff.2 fun hc => ?_
        rw [List.dropWhile_cons, if_pos hc] at hself
        have hlen := congrArg List.length hself
        have hle := (List.dropWhile_suffix (l := l ++ t) isBlank).length_le
        simp only [List.length_cons] at hlen
        omega
      simp [hc]
  rw [ht]
  simp only [trim]
  rw [hfront, List.reverse_reverse, hr]

/-- A trimmed text is its own trimmed text. -/
theorem trimmed_trimmed (s : String) : trimmed (trimmed s) = trimmed s := by
  simp [trimmed, trim_trim]

/-- Nothing but white space, or nothing at all. -/
def isBlankText (s : String) : Bool :=
  s.toList.all isBlank

/-- The non-empty stretches between characters that satisfy `sep`. -/
def stretches (sep : Char → Bool) (cs : List Char) : List (List Char) :=
  (cs.splitOnP sep).filter (! ·.isEmpty)

end Depsolve.Text
