import Depsolve.ImportPath
import Depsolve.Proofs.Text.Stretches

/-!
# Import paths by segments

A root covers a path just if its segments are the first ones of the path (`covers_iff_segments`), so
covering orders the import paths as prefixes order lists. What is valid and lies below a root is the
root, a slash and a valid path (`isValid_below`), and this path is what `relative?` and `join` take
off and put on (`relative?_join`, `exists_join_of_covers`).
-/

namespace Depsolve.ImportPath

variable {root relative a b c path : String}

/-! ## Covering -/

theorem after?_eq_some {l m rest : List Char} : after? l m = some rest ↔ m = l ++ rest := by
  induction l generalizing m with
  | nil => simp [after?, eq_comm]
  | cons c l ih =>
    cases m with
    | nil => simp [after?]
    | cons d m =>
      by_cases hcd : c = d
      · subst hcd
        simp [after?, ih]
      · simp [after?, hcd, Ne.symm hcd]

/-- A root covers what continues it at a segment boundary. -/
theorem covers_iff : covers root path = true ↔ ∃ rest, path.toList = root.toList ++ rest ∧
    (rest = [] ∨ rest.head? = some '/' ∨ root.toList.getLast? = some '/') := by
  unfold covers
  cases h : after? root.toList path.toList with
  | none =>
    have hnot : ∀ rest, path.toList ≠ root.toList ++ rest := by
      intro rest hrest
      rw [after?_eq_some.2 hrest] at h
      simp at h
    simp [hnot]
  | some rest =>
    rw [after?_eq_some] at h
    rw [h]
    cases rest <;> simp

/-- Of two roots that cover a path, one that is not the longer one covers the other. -/
theorem covers_of_covers (ha : covers a path = true) (hb : covers b path = true)
    (hle : a.utf8ByteSize ≤ b.utf8ByteSize) : covers a b = true := by
  obtain ⟨restA, hpathA, hendA⟩ := covers_iff.1 ha
  obtain ⟨restB, hpathB, -⟩ := covers_iff.1 hb
  have hsame : a.toList ++ restA = b.toList ++ restB := hpathA.symm.trans hpathB
  rcases List.append_eq_append_iff.1 hsame with ⟨mid, hmid, hrest⟩ | ⟨mid, hmid, -⟩
  · refine covers_iff.2 ⟨mid, hmid, ?_⟩
    cases mid with
    | nil => exact .inl rfl
    | cons c mid =>
      rw [hrest] at hendA
      simpa using hendA
  -- the first one continues the second one and is no longer, so it is the same
  · have ha : a = b ++ String.ofList mid := by
      rw [← String.toList_inj, String.toList_append, String.toList_ofList, hmid]
    have hempty : (String.ofList mid).utf8ByteSize = 0 := by
      rw [ha, String.utf8ByteSize_append] at hle
      omega
    rw [String.utf8ByteSize_eq_zero_iff] at hempty
    rw [ha, hempty, String.append_empty]
    exact covers_iff.2 ⟨[], by simp, .inl rfl⟩

theorem covers_or_covers (ha : covers a path = true) (hb : covers b path = true) :
    covers a b = true ∨ covers b a = true := by
  rcases Nat.le_total a.utf8ByteSize b.utf8ByteSize with hle | hle
  · exact .inl (covers_of_covers ha hb hle)
  · exact .inr (covers_of_covers hb ha hle)

theorem covers_self (path : String) : covers path path = true :=
  covers_iff.2 ⟨[], (List.append_nil _).symm, .inl rfl⟩

theorem toList_below (root relative : String) :
    (root ++ "/" ++ relative).toList = root.toList ++ '/' :: relative.toList := by
  simp

theorem covers_below (root relative : String) : covers root (root ++ "/" ++ relative) = true :=
  covers_iff.2 ⟨'/' :: relative.toList, toList_below root relative, .inr (.inl rfl)⟩

/-- A root without a slash at its end covers itself and what continues it behind a slash. -/
theorem covers_iff_below (h : root.toList.getLast? ≠ some '/') :
    covers root path = true ↔ path = root ∨ ∃ relative, path = root ++ "/" ++ relative := by
  constructor
  · intro hcovers
    obtain ⟨rest, hpath, hrest⟩ := covers_iff.1 hcovers
    cases rest with
    | nil => exact .inl (String.toList_inj.1 (by rw [hpath, List.append_nil]))
    | cons c rest =>
      obtain rfl : c = '/' := by simpa [h] using hrest
      refine .inr ⟨String.ofList rest, ?_⟩
      rw [← String.toList_inj, toList_below, hpath, String.toList_ofList]
  · rintro (rfl | ⟨relative, rfl⟩)
    · exact covers_self path
    · exact covers_below root relative

/-! ## Segments -/

theorem intercalate_segments (path : String) : ['/'].intercalate (segments path) = path.toList :=
  List.intercalate_splitOn '/'

theorem segments_inj : segments a = segments b ↔ a = b := by
  refine ⟨fun h => ?_, fun h => h ▸ rfl⟩
  rw [← String.toList_inj, ← intercalate_segments a, h, intercalate_segments]

theorem segments_ne_nil (path : String) : segments path ≠ [] :=
  List.splitOnP_ne_nil _ _

theorem segments_below (root relative : String) :
    segments (root ++ "/" ++ relative) = segments root ++ segments relative := by
  rw [segments, toList_below]
  exact List.splitOnP_append_cons _ _ rfl

/-- A path whose first segments are those of a root is the root or continues it behind a slash. -/
theorem segments_prefix_iff :
    segments root <+: segments path ↔ path = root ∨ ∃ relative, path = root ++ "/" ++ relative := by
  constructor
  · rintro ⟨more, hmore⟩
    cases more with
    | nil => exact .inl (segments_inj.1 (by rw [← hmore, List.append_nil]))
    | cons segment more =>
      -- the further segments with slashes between them stand behind the slash
      refine .inr ⟨String.ofList (['/'].intercalate (segment :: more)), ?_⟩
      rw [← String.toList_inj, toList_below, ← intercalate_segments path, ← hmore,
        Text.intercalate_append (segments_ne_nil root) (List.cons_ne_nil _ _), intercalate_segments,
        String.toList_ofList, List.append_assoc, List.singleton_append]
  · rintro (rfl | ⟨relative, rfl⟩)
    · exact List.prefix_rfl
    · exact ⟨segments relative, (segments_below root relative).symm⟩

/-- With fewer segments a path is also the shorter text. -/
theorem shorter_of_segments_prefix (h : segments root <+: segments path) (hne : root ≠ path) :
    (segments root).length < (segments path).length ∧ root.utf8ByteSize < path.utf8ByteSize := by
  rcases segments_prefix_iff.1 h with rfl | ⟨relative, rfl⟩
  · exact absurd rfl hne
  · have hmore := List.length_pos_iff.2 (segments_ne_nil relative)
    have hslash : "/".utf8ByteSize = 1 := by decide
    rw [segments_below, List.length_append, String.utf8ByteSize_append, String.utf8ByteSize_append]
    omega

/-! ## Valid paths -/

/-- A path is valid just if what stands before some slash in it and what stands behind it are
valid. -/
theorem isValid_below (root relative : String) :
    isValid (root ++ "/" ++ relative) = (isValid root && isValid relative) := by
  have hslash : Text.isBlank '/' = false := by decide
  rw [isValid, isValid, isValid, segments_below, toList_below, List.any_append, List.any_cons,
    hslash, Bool.false_or, Bool.not_or, List.all_append]
  ac_rfl

theorem ne_empty_of_isValid (h : isValid path = true) : path ≠ "" := by
  rintro rfl
  exact absurd h (by decide)

theorem ne_dot_of_isValid (h : isValid path = true) : path ≠ "." := by
  rintro rfl
  exact absurd h (by decide)

/-- A valid path does not start with a slash. -/
theorem head?_ne_slash_of_isValid (h : isValid path = true) : path.toList.head? ≠ some '/' := by
  intro hhead
  obtain ⟨rest, hpath⟩ := List.head?_eq_some_iff.1 hhead
  -- else it would have an empty path before that slash, and none is valid
  have hbelow : path = "" ++ "/" ++ String.ofList rest := by
    rw [← String.toList_inj, toList_below, hpath]
    simp
  rw [hbelow, isValid_below, Bool.and_eq_true] at h
  exact ne_empty_of_isValid h.1 rfl

/-- A valid path does not end with a slash. -/
theorem getLast?_ne_slash_of_isValid (h : isValid path = true) :
    path.toList.getLast? ≠ some '/' := by
  intro hlast
  obtain ⟨front, hpath⟩ := List.getLast?_eq_some_iff.1 hlast
  have hbelow : path = String.ofList front ++ "/" ++ "" := by
    rw [← String.toList_inj, toList_below, hpath]
    simp
  rw [hbelow, isValid_below, Bool.and_eq_true] at h
  exact ne_empty_of_isValid h.2 rfl

/-- A valid root covers a path just if the segments of the root are the first ones of the path. -/
theorem covers_iff_segments (h : isValid root = true) :
    covers root path = true ↔ segments root <+: segments path := by
  rw [covers_iff_below (getLast?_ne_slash_of_isValid h), segments_prefix_iff]

theorem covers_trans (ha : isValid a = true) (hb : isValid b = true) (hab : covers a b = true)
    (hbc : covers b c = true) : covers a c = true := by
  rw [covers_iff_segments ha] at hab ⊢
  rw [covers_iff_segments hb] at hbc
  exact hab.trans hbc

theorem covers_antisymm (ha : isValid a = true) (hb : isValid b = true) (hab : covers a b = true)
    (hba : covers b a = true) : a = b := by
  rw [covers_iff_segments ha] at hab
  rw [covers_iff_segments hb] at hba
  exact segments_inj.1 (hab.eq_of_length_le hba.length_le)

/-! ## Relative paths -/

/-- A path at or below a root is that of a package relative to the root. -/
theorem exists_relative? (h : covers root path = true) :
    ∃ relative, relative? root path = some relative := by
  unfold relative?
  rw [if_pos h]
  split <;> exact ⟨_, rfl⟩

theorem covers_of_relative? (h : relative? root path = some relative) :
    covers root path = true := by
  unfold relative? at h
  split at h
  · assumption
  · simp at h

theorem relative?_self (root : String) : relative? root root = some "." := by
  rw [relative?, if_pos (covers_self root), List.drop_length]
  rfl

theorem relative?_below (root : String) (h : isValid relative = true) :
    relative? root (root ++ "/" ++ relative) = some relative := by
  have hne : relative.toList ≠ [] :=
    fun hnil => ne_empty_of_isValid h (String.toList_eq_nil_iff.1 hnil)
  obtain ⟨c, cs, hchars⟩ := List.exists_cons_of_ne_nil hne
  have hc : ¬ (c == '/') = true := by
    have hhead := head?_ne_slash_of_isValid h
    rw [hchars, List.head?_cons] at hhead
    simpa using hhead
  have hdrop : ('/' :: relative.toList).dropWhile (· == '/') = c :: cs := by
    rw [hchars]
    exact (List.dropWhile_cons_of_pos (by decide)).trans (List.dropWhile_cons_of_neg hc)
  rw [relative?, if_pos (covers_below root relative), toList_below, List.drop_left, hdrop, ← hchars]
  simp

theorem join_self (root : String) : join root "." = root :=
  if_pos (.inl rfl)

theorem dropTrailingSlashes_of_isValid (h : isValid root = true) :
    dropTrailingSlashes root = root := by
  have hlast := getLast?_ne_slash_of_isValid h
  rw [← List.head?_reverse] at hlast
  have hreverse : root.toList.reverse.dropWhile (· == '/') = root.toList.reverse := by
    cases hchars : root.toList.reverse with
    | nil => rfl
    | cons c cs =>
      rw [hchars, List.head?_cons] at hlast
      exact List.dropWhile_cons_of_neg (by simpa using hlast)
  rw [dropTrailingSlashes, hreverse, List.reverse_reverse, String.ofList_toList]

theorem join_of_isValid (hroot : isValid root = true) (h : isValid relative = true) :
    join root relative = root ++ "/" ++ relative := by
  rw [join, if_neg (not_or.2 ⟨ne_dot_of_isValid h, ne_empty_of_isValid h⟩),
    dropTrailingSlashes_of_isValid hroot]

/-- The path of a package relative to a root is read back from its full path. -/
theorem relative?_join (hroot : isValid root = true)
    (h : relative = "." ∨ isValid relative = true) :
    relative? root (join root relative) = some relative := by
  rcases h with rfl | h
  · rw [join_self, relative?_self]
  · rw [join_of_isValid hroot h, relative?_below root h]

/-- The full path of a package is put together again from its path relative to a root. -/
theorem exists_join_of_covers (hroot : isValid root = true) (hpath : isValid path = true)
    (h : covers root path = true) :
    ∃ relative, relative? root path = some relative ∧ join root relative = path := by
  rcases (covers_iff_below (getLast?_ne_slash_of_isValid hroot)).1 h with rfl | ⟨relative, rfl⟩
  · exact ⟨".", relative?_self path, join_self path⟩
  · rw [isValid_below, Bool.and_eq_true] at hpath
    exact ⟨relative, relative?_below root hpath.2, join_of_isValid hroot hpath.2⟩

end Depsolve.ImportPath
