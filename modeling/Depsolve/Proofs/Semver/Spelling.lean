import Depsolve.Proofs.Semver.Numbers
import Mathlib.Data.List.Induction

/-!
# The spellings of versions

Numbers are read only if they have no leading zeros, so the reader of versions accepts nothing but
a version's text (`eq_toText_of_readChars`). The lenient reader also accepts the texts in which
zeros are left out at the end of the numbers, and nothing else (`readPadded_eq_ok_iff`); `Spells`
lists these texts.
-/

namespace Depsolve.Semver

variable {pos last last' : Position} {m n : Nat} {cs rest : List Char} {p : Char → Bool}
  {segments : List String}

/-! ## What is read and what is left -/

theorem stopsAt_nil : StopsAt p [] := fun _ hc => nomatch hc

theorem stopsAt_cons {c : Char} (hc : p c = false) : StopsAt p (c :: rest) :=
  fun _ hd => Option.some.inj hd ▸ hc

theorem stopsAt_dropWhile (p : Char → Bool) (cs : List Char) : StopsAt p (cs.dropWhile p) := by
  induction cs with
  | nil => exact stopsAt_nil
  | cons c cs ih =>
    by_cases hc : p c = true
    · rw [List.dropWhile_cons_of_pos hc]
      exact ih
    · rw [List.dropWhile_cons_of_neg hc]
      exact stopsAt_cons (Bool.eq_false_iff.2 hc)

/-- Where a stretch of characters of one kind ends is determined by the whole. -/
theorem append_inj_of_stopsAt {as bs xs ys : List Char} (has : ∀ c ∈ as, p c = true)
    (hbs : ∀ c ∈ bs, p c = true) (hxs : StopsAt p xs) (hys : StopsAt p ys)
    (h : as ++ xs = bs ++ ys) : as = bs ∧ xs = ys := by
  constructor
  · have htake := congrArg (List.takeWhile p) h
    rwa [takeWhile_append has hxs, takeWhile_append hbs hys] at htake
  · have hdrop := congrArg (List.dropWhile p) h
    rwa [dropWhile_append has hxs, dropWhile_append hbs hys] at hdrop

/-! ## Numbers -/

/-- A digit is the digit of its value. -/
theorem digitChar_of_isDigit {d : Char} (hd : d.isDigit = true) :
    ∃ k < 10, Nat.digitChar k = d ∧ d.toNat - '0'.toNat = k := by
  have hrange : 48 ≤ d.toNat ∧ d.toNat ≤ 57 := by
    simpa [Char.isDigit, UInt32.le_iff_toNat_le] using hd
  refine ⟨d.toNat - 48, by omega, ?_, rfl⟩
  apply Char.toNat_inj.mp
  rw [Nat.toNat_digitChar_of_lt_ten (by omega)]
  omega

/-- Digits without a leading zero are the digits of the number that they stand for. -/
theorem toDigits_ofDigitChars {ds : List Char} (hdigits : ∀ d ∈ ds, d.isDigit = true)
    (hne : ds ≠ []) (hzero : ∀ d ds', ds ≠ '0' :: d :: ds') :
    Nat.toDigits 10 (Nat.ofDigitChars 10 ds 0) = ds := by
  induction ds using List.reverseRecOn with
  | nil => exact absurd rfl hne
  | append_singleton ds d ih =>
    obtain ⟨k, hk, hchar, hvalue⟩ := digitChar_of_isDigit (hdigits d (by simp))
    have hlast : Nat.ofDigitChars 10 (ds ++ [d]) 0 = 10 * Nat.ofDigitChars 10 ds 0 + k := by
      rw [Nat.ofDigitChars_append, Nat.ofDigitChars_cons, Nat.ofDigitChars_nil, hvalue]
    rw [hlast]
    by_cases hds : ds = []
    · subst hds
      rw [Nat.ofDigitChars_nil, Nat.mul_zero, Nat.zero_add, Nat.toDigits_of_lt_base hk, hchar,
        List.nil_append]
    · have hfront : Nat.toDigits 10 (Nat.ofDigitChars 10 ds 0) = ds := by
        refine ih (fun e he => hdigits e (List.mem_append_left _ he)) hds fun e es heq =>
          hzero e (es ++ [d]) ?_
        rw [heq, List.cons_append, List.cons_append]
      -- the digits before the last one would be a leading zero
      have hpos : 0 < Nat.ofDigitChars 10 ds 0 := by
        by_contra hnot
        rw [Nat.eq_zero_of_not_pos hnot, Nat.toDigits_zero] at hfront
        exact hzero d [] (by rw [← hfront]; rfl)
      rw [← Nat.toDigits_append_toDigits (by decide) hpos hk, hfront,
        Nat.toDigits_of_lt_base hk, hchar]

theorem toDigits_injective (h : Nat.toDigits 10 m = Nat.toDigits 10 n) : m = n := by
  have hvalue := congrArg (Nat.ofDigitChars 10 · 0) h
  simpa only [Nat.ofDigitChars_ten_toDigits] using hvalue

/-- A number is read just from its digits. -/
theorem readNumber_eq_ok_iff : readNumber pos cs = .ok (n, rest) ↔
    cs = Nat.toDigits 10 n ++ rest ∧ n ≤ maxNumber ∧ StopsAt Char.isDigit rest := by
  constructor
  · intro h
    have hle := le_of_readNumber h
    have hcs := List.takeWhile_append_dropWhile (p := Char.isDigit) (l := cs)
    have hstops := stopsAt_dropWhile Char.isDigit cs
    have hdigits : ∀ d ∈ cs.takeWhile Char.isDigit, d.isDigit = true :=
      List.all_eq_true.1 List.all_takeWhile
    unfold readNumber at h
    dsimp only at h
    split at h
    · split at h <;> exact nomatch h
    · exact nomatch h
    · rename_i hne hzero
      split at h
      · obtain ⟨rfl, rfl⟩ := Prod.mk.inj (Except.ok.inj h)
        rw [toDigits_ofDigitChars hdigits hne fun d ds heq => hzero d ds heq, hcs]
        exact ⟨rfl, hle, hstops⟩
      · exact nomatch h
  · rintro ⟨rfl, hle, hrest⟩
    exact readNumber_toDigits hle hrest

theorem eq_of_readDot (h : readDot pos cs = .ok rest) : cs = '.' :: rest := by
  unfold readDot at h
  split at h
  · rw [Except.ok.inj h]
  · exact nomatch h
  · exact nomatch h

/-! ## Identifiers -/

/-- The characters of an identifier are all kept. -/
theorem eq_of_readIdentifier (h : readIdentifier pos cs = .ok (segments, rest)) :
    cs = ['.'].intercalate (segments.map String.toList) ++ rest := by
  unfold readIdentifier at h
  dsimp only at h
  obtain ⟨-, -, h⟩ := bind_eq_ok_iff.1 h
  obtain ⟨rfl, rfl⟩ := Prod.mk.inj (Except.ok.inj h)
  have hjoin :
      ['.'].intercalate ((cs.takeWhile fun c => isSegmentChar c || c == '.').splitOn '.') = _ :=
    List.intercalate_splitOn '.'
  unfold List.splitOn at hjoin
  rw [List.map_map]
  simp only [Function.comp_def, String.toList_ofList, List.map_id']
  rw [hjoin, List.takeWhile_append_dropWhile]

theorem eq_of_readSigned {sign : Char}
    (h : readSigned sign pos last cs = .ok (segments, last', rest)) :
    cs = (identifierText (String.singleton sign) segments).toList ++ rest := by
  unfold readSigned at h
  split at h
  · obtain ⟨rfl, hleft⟩ := Prod.mk.inj (Except.ok.inj h)
    obtain ⟨-, rfl⟩ := Prod.mk.inj hleft
    rfl
  · split at h
    · rename_i hsign
      obtain ⟨⟨segments', rest'⟩, hread, h⟩ := bind_eq_ok_iff.1 h
      obtain ⟨rfl, hleft⟩ := Prod.mk.inj (Except.ok.inj h)
      obtain ⟨-, rfl⟩ := Prod.mk.inj hleft
      have hne := List.isEmpty_eq_false_iff.2 (isIdentifier_of_readIdentifier hread).ne_nil
      rw [toList_identifierText, hne, hsign, eq_of_readIdentifier hread]
      simp
    · obtain ⟨rfl, hleft⟩ := Prod.mk.inj (Except.ok.inj h)
      obtain ⟨-, rfl⟩ := Prod.mk.inj hleft
      rfl

/-! ## Texts -/

/-- A version that can be read. -/
structure WellFormed (v : Semver) : Prop extends v.Proper where
  build : IsIdentifier? .build v.build

/-- What stands behind the numbers of a version. -/
def identifiers (pre build : List String) : List Char :=
  (identifierText "-" pre).toList ++ (identifierText "+" build).toList

theorem toList_toText (v : Semver) : v.toText.toList = Nat.toDigits 10 v.major ++ '.' ::
    (Nat.toDigits 10 v.minor ++ '.' :: (Nat.toDigits 10 v.patch ++ identifiers v.pre v.build)) := by
  simp [toText, identifiers, Nat.toList_repr]

theorem stopsAt_identifiers {pre build : List String} (hminus : p '-' = false)
    (hplus : p '+' = false) : StopsAt p (identifiers pre build) := by
  have hbuild : StopsAt p ((identifierText "+" build).toList ++ []) :=
    stopsAt_singleton '+' hplus stopsAt_nil
  rw [List.append_nil] at hbuild
  exact stopsAt_identifierText hminus hbuild

theorem readChars_toText {v : Semver} (h : v.WellFormed) : readChars v.toText.toList = .ok v := by
  obtain ⟨major, minor, patch, pre, build⟩ := v
  have hmajor : readNumber .major (Nat.toDigits 10 major ++ '.' :: (Nat.toDigits 10 minor ++ '.' ::
      (Nat.toDigits 10 patch ++ identifiers pre build))) = .ok (major, _) :=
    readNumber_toDigits h.major (stopsAt_cons (by decide))
  have hminor : readNumber .minor (Nat.toDigits 10 minor ++ '.' ::
      (Nat.toDigits 10 patch ++ identifiers pre build)) = .ok (minor, _) :=
    readNumber_toDigits h.minor (stopsAt_cons (by decide))
  have hpatch : readNumber .patch (Nat.toDigits 10 patch ++ identifiers pre build) =
      .ok (patch, _) :=
    readNumber_toDigits h.patch (stopsAt_identifiers (by decide) (by decide))
  have hplus : StopsAt isIdentifierChar (identifierText "+" build).toList := by
    have hnil : StopsAt isIdentifierChar ((identifierText "+" build).toList ++ []) :=
      stopsAt_singleton '+' (by decide) stopsAt_nil
    rwa [List.append_nil] at hnil
  obtain ⟨last, hsigned⟩ := readSigned_identifierText .patch h.pre hplus
  have hpre : readSigned '-' .pre .patch (identifiers pre build) =
      .ok (pre, last, (identifierText "+" build).toList) := hsigned
  obtain ⟨last', hsigned⟩ := readSigned_singleton '+' last h.build stopsAt_nil stopsAt_nil
  rw [List.append_nil] at hsigned
  have hbuild : readSigned '+' .build last (identifierText "+" build).toList =
      .ok (build, last', []) := hsigned
  rw [toList_toText]
  simp [readChars, hmajor, hminor, hpatch, readDot, hpre, hbuild, bind, Except.bind,
    pure, Except.pure]

theorem eq_toText_of_readChars {v : Semver} (h : readChars cs = .ok v) :
    cs = v.toText.toList ∧ v.WellFormed := by
  have hproper := proper_of_readChars h
  unfold readChars at h
  split at h
  · exact nomatch h
  · obtain ⟨⟨major, rest₁⟩, hmajor, h⟩ := bind_eq_ok_iff.1 h
    obtain ⟨rest₂, hdot, h⟩ := bind_eq_ok_iff.1 h
    obtain ⟨⟨minor, rest₃⟩, hminor, h⟩ := bind_eq_ok_iff.1 h
    obtain ⟨rest₄, hdot', h⟩ := bind_eq_ok_iff.1 h
    obtain ⟨⟨patch, rest₅⟩, hpatch, h⟩ := bind_eq_ok_iff.1 h
    obtain ⟨⟨pre, last, rest₆⟩, hpre, h⟩ := bind_eq_ok_iff.1 h
    obtain ⟨⟨build, last', rest₇⟩, hbuild, h⟩ := bind_eq_ok_iff.1 h
    dsimp only at h hdot hdot' hminor hpatch hpre hbuild
    split at h
    · obtain rfl := Except.ok.inj h
      refine ⟨?_, hproper, isIdentifier?_of_readSigned hbuild⟩
      rw [toList_toText, (readNumber_eq_ok_iff.1 hmajor).1, eq_of_readDot hdot,
        (readNumber_eq_ok_iff.1 hminor).1, eq_of_readDot hdot', (readNumber_eq_ok_iff.1 hpatch).1,
        eq_of_readSigned hpre, eq_of_readSigned hbuild]
      simp [identifiers]
    · exact nomatch h

/-! ## Zeros that are left out -/

/-- The texts of a version: the one with all numbers, and those in which zeros are left out at the
end of the numbers. -/
inductive Spells : List Char → Semver → Prop
  | full {v : Semver} (h : v.WellFormed) : Spells v.toText.toList v
  | noPatch {major minor : Nat} {pre build : List String}
      (h : WellFormed ⟨major, minor, 0, pre, build⟩) :
      Spells (Nat.toDigits 10 major ++ '.' :: (Nat.toDigits 10 minor ++ identifiers pre build))
        ⟨major, minor, 0, pre, build⟩
  | noMinor {major : Nat} {pre build : List String} (h : WellFormed ⟨major, 0, 0, pre, build⟩) :
      Spells (Nat.toDigits 10 major ++ identifiers pre build) ⟨major, 0, 0, pre, build⟩

theorem Spells.wellFormed {v : Semver} (h : Spells cs v) : v.WellFormed := by
  cases h <;> assumption

/-- A spelling starts with the digits of the major number. -/
theorem Spells.exists_eq_append {v : Semver} (h : Spells cs v) :
    ∃ rest, cs = Nat.toDigits 10 v.major ++ rest := by
  cases h with
  | full h => exact ⟨_, toList_toText v⟩
  | noPatch h => exact ⟨_, rfl⟩
  | noMinor h => exact ⟨_, rfl⟩

theorem Spells.forall_mem {v : Semver} {P : Char → Prop} (h : Spells cs v) (hdot : P '.')
    (hplus : P '+') (hsegment : ∀ c, isSegmentChar c = true → P c) : ∀ c ∈ cs, P c := by
  have hdigits : ∀ n, ∀ c ∈ Nat.toDigits 10 n, P c := fun n c hc => by
    have hdigit := isDigit_of_mem_toDigits hc
    exact hsegment c (by simp [isSegmentChar, Char.isAlphanum, hdigit])
  have hids : ∀ c ∈ identifiers v.pre v.build, P c :=
    List.forall_mem_append.2
      ⟨forall_mem_identifierText '-' h.wellFormed.pre (hsegment '-' rfl) hdot hsegment,
      forall_mem_identifierText '+' h.wellFormed.build hplus hdot hsegment⟩
  cases h with
  | full h =>
    rw [toList_toText]
    refine List.forall_mem_append.2 ⟨hdigits _, List.forall_mem_cons.2 ⟨hdot, ?_⟩⟩
    exact List.forall_mem_append.2 ⟨hdigits _, List.forall_mem_cons.2
      ⟨hdot, List.forall_mem_append.2 ⟨hdigits _, hids⟩⟩⟩
  | noPatch h =>
    exact List.forall_mem_append.2 ⟨hdigits _, List.forall_mem_cons.2
      ⟨hdot, List.forall_mem_append.2 ⟨hdigits _, hids⟩⟩⟩
  | noMinor h => exact List.forall_mem_append.2 ⟨hdigits _, hids⟩

/-- The characters before the identifiers. -/
def isCoreChar (c : Char) : Bool :=
  ! (c == '-' || c == '+')

/-- Whether a character is no dot. -/
def isBeforeDot (c : Char) : Bool :=
  c != '.'

theorem isCoreChar_of_isDigit {c : Char} (hc : c.isDigit = true) : isCoreChar c = true := by
  have hminus := ne_of_isDigit hc (c := '-') (by decide)
  have hplus := ne_of_isDigit hc (c := '+') (by decide)
  simp [isCoreChar, hminus, hplus]

theorem isBeforeDot_of_mem_toDigits {c : Char} (hc : c ∈ Nat.toDigits 10 n) :
    isBeforeDot c = true :=
  bne_iff_ne.2 (ne_of_isDigit (isDigit_of_mem_toDigits hc) (by decide))

theorem isBeforeDot_of_not_mem (h : '.' ∉ cs) : ∀ c ∈ cs, isBeforeDot c = true := by
  intro c hc
  apply bne_iff_ne.2
  rintro rfl
  exact h hc

theorem splitCore_append {core : List Char} (hcore : ∀ c ∈ core, isCoreChar c = true)
    (hrest : StopsAt isCoreChar rest) : splitCore (core ++ rest) = (core, rest) :=
  Prod.ext (takeWhile_append hcore hrest) (dropWhile_append hcore hrest)

theorem exists_splitCore (cs : List Char) :
    ∃ core rest, cs = core ++ rest ∧ splitCore cs = (core, rest) ∧ StopsAt isCoreChar rest :=
  ⟨cs.takeWhile isCoreChar, cs.dropWhile isCoreChar, List.takeWhile_append_dropWhile.symm, rfl,
    stopsAt_dropWhile isCoreChar cs⟩

theorem stopsAt_isDigit_of_isCoreChar (h : StopsAt isCoreChar rest) :
    StopsAt Char.isDigit rest := by
  intro c hc
  by_contra hdigit
  exact absurd (isCoreChar_of_isDigit (by simpa using hdigit)) (Bool.eq_false_iff.1 (h c hc))

theorem toDigits_eq_singleton_zero (h : ['0'] = Nat.toDigits 10 n) : n = 0 := by
  apply toDigits_injective
  rw [← h, Nat.toDigits_zero]

/-- A missing patch number is taken for zero. -/
theorem eq_of_toText_noPatch {v : Semver} {major minor : List Char} (hmajor : '.' ∉ major)
    (hminor : '.' ∉ minor) (hrest : StopsAt Char.isDigit rest)
    (h : major ++ '.' :: (minor ++ '.' :: '0' :: rest) = v.toText.toList) :
    major = Nat.toDigits 10 v.major ∧ minor = Nat.toDigits 10 v.minor ∧ v.patch = 0 ∧
      rest = identifiers v.pre v.build := by
  rw [toList_toText] at h
  obtain ⟨hm, h⟩ :=
    append_inj_of_stopsAt (isBeforeDot_of_not_mem hmajor) (fun _ => isBeforeDot_of_mem_toDigits)
    (stopsAt_cons rfl) (stopsAt_cons rfl) h
  obtain ⟨hn, h⟩ :=
    append_inj_of_stopsAt (isBeforeDot_of_not_mem hminor) (fun _ => isBeforeDot_of_mem_toDigits)
    (stopsAt_cons rfl) (stopsAt_cons rfl) (List.cons.inj h).2
  have hzero : ['0'] ++ rest = Nat.toDigits 10 v.patch ++ identifiers v.pre v.build :=
    (List.cons.inj h).2
  obtain ⟨hp, hrest⟩ :=
    append_inj_of_stopsAt (p := Char.isDigit) (List.forall_mem_singleton.2 (by decide))
    (fun _ => isDigit_of_mem_toDigits) hrest (stopsAt_identifiers (by decide) (by decide)) hzero
  exact ⟨hm, hn, toDigits_eq_singleton_zero hp, hrest⟩

/-- What is read with missing numbers taken for zeros is a spelling. -/
theorem spells_of_padded? {v : Semver} {full : List Char} (hpadded : padded? cs = some full)
    (h : readChars full = .ok v) : Spells cs v := by
  obtain ⟨htext, hv⟩ := eq_toText_of_readChars h
  obtain ⟨core, rest, rfl, hsplit, hrest⟩ := exists_splitCore cs
  have hdigit := stopsAt_isDigit_of_isCoreChar hrest
  unfold padded? at hpadded
  rw [hsplit] at hpadded
  dsimp only at hpadded
  split at hpadded
  · rename_i hcount
    have hfull : core ++ '.' :: (['0'] ++ '.' :: '0' :: rest) = v.toText.toList := by
      rw [← htext, ← Option.some.inj hpadded]
      simp
    obtain ⟨hcore, hzero, hpatch, hids⟩ :=
      eq_of_toText_noPatch (List.count_eq_zero.1 hcount) (by decide) hdigit hfull
    obtain ⟨major, minor, patch, pre, build⟩ := v
    obtain rfl : minor = 0 := toDigits_eq_singleton_zero hzero
    obtain rfl : patch = 0 := hpatch
    rw [hcore, hids]
    exact .noMinor hv
  · rename_i hcount
    obtain ⟨major, minor, rfl⟩ := List.append_of_mem (List.count_pos_iff.1 (hcount ▸ Nat.one_pos))
    rw [List.count_append, List.count_cons_self] at hcount
    have hfull : major ++ '.' :: (minor ++ '.' :: '0' :: rest) = v.toText.toList := by
      rw [← htext, ← Option.some.inj hpadded]
      simp
    obtain ⟨hmajor, hminor, hpatch, hids⟩ := eq_of_toText_noPatch (List.count_eq_zero.1 (by omega))
      (List.count_eq_zero.1 (by omega)) hdigit hfull
    obtain ⟨_, _, patch, pre, build⟩ := v
    obtain rfl : patch = 0 := hpatch
    rw [hmajor, hminor, hids, List.append_assoc, List.cons_append]
    exact .noPatch hv
  · exact nomatch hpadded

theorem spells_of_readPadded {v : Semver} (h : readPadded cs = .ok v) : Spells cs v := by
  unfold readPadded at h
  split at h
  · rename_i hread
    obtain ⟨rfl, hv⟩ := eq_toText_of_readChars (hread.trans h)
    exact .full hv
  · split at h
    · exact nomatch h
    · rename_i hpadded
      exact spells_of_padded? hpadded (mapError_eq_ok_iff.1 h)

/-- A text with a number missing is read as it is with zeros for the missing ones. -/
theorem readPadded_of_padded? {v : Semver} {full : List Char} (hnot : ∀ v, readChars cs ≠ .ok v)
    (hpadded : padded? cs = some full) (h : readChars full = .ok v) : readPadded cs = .ok v := by
  unfold readPadded
  cases hread : readChars cs with
  | ok v' => exact absurd hread (hnot v')
  | error e =>
    dsimp only
    rw [hpadded]
    dsimp only
    rw [h, mapError_ok]

/-- Identifiers start with their sign and not with a dot. -/
theorem toDigits_append_identifiers_ne {pre build : List String} :
    Nat.toDigits 10 m ++ identifiers pre build ≠ Nat.toDigits 10 n ++ '.' :: rest := by
  intro h
  have hids : ∀ {p : Char → Bool}, p '-' = false → p '+' = false →
      StopsAt p (identifiers pre build) :=
    stopsAt_identifiers
  obtain ⟨-, hdot⟩ := append_inj_of_stopsAt (p := Char.isDigit) (fun _ => isDigit_of_mem_toDigits)
    (fun _ => isDigit_of_mem_toDigits) (hids (by decide) (by decide)) (stopsAt_cons (by decide)) h
  have hstop : StopsAt (· == '.') (identifiers pre build) := hids (by decide) (by decide)
  exact absurd (hstop '.' (by rw [hdot]; rfl)) (by decide)

theorem count_dot_toDigits : (Nat.toDigits 10 n).count '.' = 0 :=
  List.count_eq_zero.2 fun hdot => absurd (isDigit_of_mem_toDigits hdot) (by decide)

theorem readPadded_noPatch {major minor : Nat} {pre build : List String}
    (h : WellFormed ⟨major, minor, 0, pre, build⟩) :
    readPadded (Nat.toDigits 10 major ++ '.' :: (Nat.toDigits 10 minor ++ identifiers pre build)) =
      .ok ⟨major, minor, 0, pre, build⟩ := by
  refine readPadded_of_padded? (fun v hread => ?_) ?_ (readChars_toText h)
  · have htext := (eq_toText_of_readChars hread).1
    rw [toList_toText] at htext
    obtain ⟨-, htext⟩ := append_inj_of_stopsAt (fun _ => isBeforeDot_of_mem_toDigits)
      (fun _ => isBeforeDot_of_mem_toDigits) (stopsAt_cons rfl) (stopsAt_cons rfl) htext
    exact toDigits_append_identifiers_ne (List.cons.inj htext).2
  · have hcore : ∀ c ∈ Nat.toDigits 10 major ++ '.' :: Nat.toDigits 10 minor,
        isCoreChar c = true := by
      intro c hc
      rcases List.mem_append.1 hc with hc | hc
      · exact isCoreChar_of_isDigit (isDigit_of_mem_toDigits hc)
      · rcases List.mem_cons.1 hc with rfl | hc
        · decide
        · exact isCoreChar_of_isDigit (isDigit_of_mem_toDigits hc)
    have hids : StopsAt isCoreChar (identifiers pre build) := stopsAt_identifiers rfl rfl
    have hsplit := splitCore_append hcore hids
    rw [List.append_assoc, List.cons_append] at hsplit
    unfold padded?
    rw [hsplit]
    dsimp only
    rw [List.count_append, List.count_cons_self, count_dot_toDigits, count_dot_toDigits,
      toList_toText]
    simp

theorem readPadded_noMinor {major : Nat} {pre build : List String}
    (h : WellFormed ⟨major, 0, 0, pre, build⟩) :
    readPadded (Nat.toDigits 10 major ++ identifiers pre build) =
      .ok ⟨major, 0, 0, pre, build⟩ := by
  refine readPadded_of_padded? (fun v hread => ?_) ?_ (readChars_toText h)
  · have htext := (eq_toText_of_readChars hread).1
    rw [toList_toText] at htext
    exact toDigits_append_identifiers_ne htext
  · have hids : StopsAt isCoreChar (identifiers pre build) := stopsAt_identifiers rfl rfl
    have hsplit :=
      splitCore_append
      (fun _ hc => isCoreChar_of_isDigit (isDigit_of_mem_toDigits (n := major) hc)) hids
    unfold padded?
    rw [hsplit]
    dsimp only
    rw [count_dot_toDigits, toList_toText]
    simp

/-- The lenient reader accepts just the spellings of versions. -/
theorem readPadded_eq_ok_iff {v : Semver} : readPadded cs = .ok v ↔ Spells cs v := by
  constructor
  · exact spells_of_readPadded
  · intro h
    cases h with
    | full hv =>
      unfold readPadded
      rw [readChars_toText hv]
    | noPatch hv => exact readPadded_noPatch hv
    | noMinor hv => exact readPadded_noMinor hv

/-! ## A `v` in front -/

theorem forall_mem_of_dropV {P : Char → Prop} (hlower : P 'v') (hupper : P 'V')
    (h : ∀ c ∈ dropV cs, P c) : ∀ c ∈ cs, P c := by
  unfold dropV at h
  split at h
  · exact List.forall_mem_cons.2 ⟨hlower, h⟩
  · exact List.forall_mem_cons.2 ⟨hupper, h⟩
  · exact h

theorem dropV_of_ne {c : Char} (hlower : c ≠ 'v') (hupper : c ≠ 'V') :
    dropV (c :: cs) = c :: cs := by
  simp [dropV, hlower, hupper]

theorem dropV_suffix (cs : List Char) : dropV cs <:+ cs := by
  unfold dropV
  split
  · exact List.suffix_cons _ _
  · exact List.suffix_cons _ _
  · exact List.suffix_refl _

theorem ne_nil_of_spells_dropV {v : Semver} (h : Spells (dropV cs) v) : cs ≠ [] := by
  rintro rfl
  obtain ⟨rest, hrest⟩ := h.exists_eq_append
  obtain ⟨hdigits, -⟩ := List.append_eq_nil_iff.1 hrest.symm
  exact Nat.toDigits_ne_nil hdigits

end Depsolve.Semver
