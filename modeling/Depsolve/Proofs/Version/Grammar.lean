import Depsolve.Proofs.Semver.Spelling
import Depsolve.Proofs.Text.Trimming
import Depsolve.Version.Basic

/-!
# The grammar of tags

A tag is a semantic version with white space around it, one `v` or `V` before it and numbers left
out at the end, all of them optional: `MAJOR[.MINOR[.PATCH]][-PRE][+BUILD]`. `Semver.IsTagForm` says
so of the characters alone. The reader of tags accepts these texts and no others
(`Tag.read_follows_grammar`), whichever of its two attempts it takes.
-/

namespace Depsolve

namespace Semver

variable {cs ds : List Char} {n : Nat} {s : String} {segments : List String}

/-! ## The grammar -/

/-- Digits that write a number below 2^64 without a leading zero. -/
structure IsNumeral (ds : List Char) (n : Nat) : Prop where
  ne_nil : ds ≠ []
  digits : ∀ d ∈ ds, d.isDigit = true
  noLeadingZero : ds.head? = some '0' → ds = ['0']
  value : Nat.ofDigitChars 10 ds 0 = n
  lt : n < 18446744073709551616

/-- A segment of a build identifier: ASCII letters, digits and hyphens, at least one of them. -/
structure IsBuildSegment (s : String) : Prop where
  ne_empty : s ≠ ""
  chars : ∀ c ∈ s.toList, c.isAlphanum = true ∨ c = '-'

/-- A segment of a pre-release identifier; one that is a number has no leading zero. -/
structure IsPreSegment (s : String) : Prop extends IsBuildSegment s where
  noLeadingZero : (∀ c ∈ s.toList, c.isDigit = true) → s.toList.head? = some '0' → s = "0"

/-- The numbers of a version; the patch number, or the minor and the patch number, may be
left out for zero. -/
inductive WritesNumbers : List Char → Nat → Nat → Nat → Prop
  | major {as : List Char} {a : Nat} (ha : IsNumeral as a) : WritesNumbers as a 0 0
  | minor {as bs : List Char} {a b : Nat} (ha : IsNumeral as a) (hb : IsNumeral bs b) :
      WritesNumbers (as ++ '.' :: bs) a b 0
  | patch {as bs cs : List Char} {a b c : Nat} (ha : IsNumeral as a) (hb : IsNumeral bs b)
      (hc : IsNumeral cs c) :
      WritesNumbers (as ++ '.' :: (bs ++ '.' :: cs)) a b c

/-- An identifier behind its sign, with dots between its segments, or nothing for the absent one. -/
inductive WritesIdentifier (sign : Char) (IsSegment : String → Prop) :
    List Char → List String → Prop
  | absent : WritesIdentifier sign IsSegment [] []
  | present {segments : List String} (hne : segments ≠ []) (h : ∀ s ∈ segments, IsSegment s) :
      WritesIdentifier sign IsSegment
        (sign :: ['.'].intercalate (segments.map String.toList)) segments

/-- The form `MAJOR[.MINOR[.PATCH]][-PRE][+BUILD]`, and the version that it stands for. -/
inductive IsTagForm : List Char → Semver → Prop
  | mk {numbers minus plus : List Char} {v : Semver}
      (hnumbers : WritesNumbers numbers v.major v.minor v.patch)
      (hpre : WritesIdentifier '-' IsPreSegment minus v.pre)
      (hbuild : WritesIdentifier '+' IsBuildSegment plus v.build) :
      IsTagForm (numbers ++ (minus ++ plus)) v

/-- A text of this form with white space around it and at most one `v` or `V` before it. -/
def Names (text : String) (v : Semver) : Prop :=
  ∃ cs, IsTagForm cs v ∧ (Text.trim text.toList = cs ∨ Text.trim text.toList = 'v' :: cs ∨
    Text.trim text.toList = 'V' :: cs)

/-! ## Numbers and segments -/

theorem isNumeral_iff : IsNumeral ds n ↔ ds = Nat.toDigits 10 n ∧ n ≤ maxNumber := by
  constructor
  · intro h
    have hzero : ∀ d rest, ds ≠ '0' :: d :: rest := by
      rintro d rest rfl
      exact absurd (h.noLeadingZero rfl) (by simp)
    have hdigits := toDigits_ofDigitChars h.digits h.ne_nil hzero
    have hlt := h.lt
    rw [h.value] at hdigits
    unfold maxNumber
    exact ⟨hdigits.symm, by omega⟩
  · rintro ⟨rfl, hle⟩
    unfold maxNumber at hle
    refine ⟨Nat.toDigits_ne_nil, fun _ => isDigit_of_mem_toDigits, ?_,
      Nat.ofDigitChars_ten_toDigits, by omega⟩
    intro hhead
    obtain ⟨rest, hrest⟩ := List.head?_eq_some_iff.1 hhead
    cases rest with
    | nil => exact hrest
    | cons d rest => exact absurd hrest toDigits_ne_zero_cons

theorem isSegmentChar_iff {c : Char} : isSegmentChar c = true ↔ c.isAlphanum = true ∨ c = '-' := by
  rw [isSegmentChar, Bool.or_eq_true, beq_iff_eq]

/-- Beside the characters, only an empty segment and leading zeros are checked. -/
theorem checkSegment_eq_ok_iff {pos : Position} : checkSegment pos cs = .ok () ↔
    cs ≠ [] ∧ (pos = .pre → (∀ c ∈ cs, c.isDigit = true) → cs.head? = some '0' → cs = ['0']) := by
  unfold checkSegment
  split
  · simp
  · rename_i d ds
    have hzero : Char.isDigit '0' = true := by decide
    by_cases h : pos = .pre ∧ (d :: ds).all Char.isDigit = true
    · rw [if_pos h]
      simpa [hzero, h.1] using List.all_eq_true.1 h.2
    · rw [if_neg h]
      simp only [ne_eq, reduceCtorEq, not_false_eq_true, true_and, true_iff]
      intro hpos hdigits
      exact absurd ⟨hpos, List.all_eq_true.2 fun c hc => hdigits c (List.mem_cons_of_mem _ hc)⟩ h
  · rename_i c rest hnot
    simp only [ne_eq, reduceCtorEq, not_false_eq_true, true_and, true_iff]
    intro _ _ hhead
    cases rest with
    | nil => exact congrArg (· :: []) (Option.some.inj hhead)
    | cons d ds => exact absurd rfl (hnot d ds (Option.some.inj hhead))

theorem ne_empty_iff : s ≠ "" ↔ s.toList ≠ [] := by
  simp

theorem isBuildSegment_iff :
    IsBuildSegment s ↔ checkSegment .build s.toList = .ok () ∧ ∀ c ∈ s.toList,
      isSegmentChar c = true := by
  simp only [checkSegment_eq_ok_iff, isSegmentChar_iff, ← ne_empty_iff]
  constructor
  · intro h
    exact ⟨⟨h.ne_empty, fun hpos => nomatch hpos⟩, h.chars⟩
  · rintro ⟨⟨hne, -⟩, hchars⟩
    exact ⟨hne, hchars⟩

theorem isPreSegment_iff :
    IsPreSegment s ↔ checkSegment .pre s.toList = .ok () ∧ ∀ c ∈ s.toList,
      isSegmentChar c = true := by
  have hone : s.toList = ['0'] ↔ s = "0" := by
    rw [← String.toList_inj]
    rfl
  simp only [checkSegment_eq_ok_iff, isSegmentChar_iff, ← ne_empty_iff, hone, true_implies]
  constructor
  · intro h
    exact ⟨⟨h.ne_empty, h.noLeadingZero⟩, h.chars⟩
  · rintro ⟨⟨hne, hzero⟩, hchars⟩
    exact ⟨⟨hne, hchars⟩, hzero⟩

theorem isIdentifier?_iff {pos : Position} : IsIdentifier? pos segments ↔
    ∀ s ∈ segments, checkSegment pos s.toList = .ok () ∧
      ∀ c ∈ s.toList, isSegmentChar c = true := by
  constructor
  · rintro (rfl | h)
    · exact fun s hs => nomatch hs
    · exact fun s hs => ⟨h.checked s hs, h.chars s hs⟩
  · intro h
    by_cases hne : segments = []
    · exact .inl hne
    · exact .inr ⟨hne, fun s hs => (h s hs).1, fun s hs => (h s hs).2⟩

theorem writesIdentifier_iff {sign : Char} {IsSegment : String → Prop} :
    WritesIdentifier sign IsSegment cs segments ↔
      cs = (identifierText (String.singleton sign) segments).toList ∧
      ∀ s ∈ segments, IsSegment s := by
  rw [toList_identifierText, String.toList_singleton]
  constructor
  · intro h
    cases h with
    | absent => exact ⟨rfl, fun s hs => nomatch hs⟩
    | present hne h =>
      rw [if_neg (by simpa using hne)]
      exact ⟨rfl, h⟩
  · rintro ⟨rfl, h⟩
    by_cases hne : segments = []
    · subst hne
      exact .absent
    · rw [if_neg (by simpa using hne)]
      exact .present hne h

/-! ## Texts of this form are the spellings of versions -/

theorem writesIdentifier_pre_iff : WritesIdentifier '-' IsPreSegment cs segments ↔
    cs = (identifierText "-" segments).toList ∧ IsIdentifier? .pre segments := by
  rw [writesIdentifier_iff, isIdentifier?_iff]
  simp only [isPreSegment_iff]
  rfl

theorem writesIdentifier_build_iff : WritesIdentifier '+' IsBuildSegment cs segments ↔
    cs = (identifierText "+" segments).toList ∧ IsIdentifier? .build segments := by
  rw [writesIdentifier_iff, isIdentifier?_iff]
  simp only [isBuildSegment_iff]
  rfl

theorem spells_of_isTagForm {v : Semver} (h : IsTagForm cs v) : Spells cs v := by
  obtain @⟨numbers, minus, plus, ⟨major, minor, patch, pre, build⟩, hnumbers, hpre, hbuild⟩ := h
  obtain ⟨rfl, hpre'⟩ := writesIdentifier_pre_iff.1 hpre
  obtain ⟨rfl, hbuild'⟩ := writesIdentifier_build_iff.1 hbuild
  have hzero : 0 ≤ maxNumber := Nat.zero_le _
  cases hnumbers with
  | major ha =>
    obtain ⟨rfl, ha'⟩ := isNumeral_iff.1 ha
    exact .noMinor ⟨⟨ha', hzero, hzero, hpre'⟩, hbuild'⟩
  | minor ha hb =>
    obtain ⟨rfl, ha'⟩ := isNumeral_iff.1 ha
    obtain ⟨rfl, hb'⟩ := isNumeral_iff.1 hb
    rw [List.append_assoc, List.cons_append]
    exact .noPatch ⟨⟨ha', hb', hzero, hpre'⟩, hbuild'⟩
  | patch ha hb hc =>
    obtain ⟨rfl, ha'⟩ := isNumeral_iff.1 ha
    obtain ⟨rfl, hb'⟩ := isNumeral_iff.1 hb
    obtain ⟨rfl, hc'⟩ := isNumeral_iff.1 hc
    have hfull :=
      Spells.full (v := ⟨major, minor, patch, pre, build⟩) ⟨⟨ha', hb', hc', hpre'⟩, hbuild'⟩
    rw [toList_toText] at hfull
    simpa only [identifiers, List.append_assoc, List.cons_append] using hfull

theorem isTagForm_of_spells {v : Semver} (h : Spells cs v) : IsTagForm cs v := by
  have hpre := writesIdentifier_pre_iff.2 ⟨rfl, h.wellFormed.pre⟩
  have hbuild := writesIdentifier_build_iff.2 ⟨rfl, h.wellFormed.build⟩
  have hmajor := isNumeral_iff.2 ⟨rfl, h.wellFormed.major⟩
  have hminor := isNumeral_iff.2 ⟨rfl, h.wellFormed.minor⟩
  have hpatch := isNumeral_iff.2 ⟨rfl, h.wellFormed.patch⟩
  cases h with
  | full hv =>
    have hform := IsTagForm.mk (.patch hmajor hminor hpatch) hpre hbuild
    rw [toList_toText]
    simpa only [identifiers, List.append_assoc, List.cons_append] using hform
  | noPatch hv =>
    have hform := IsTagForm.mk (.minor hmajor hminor) hpre hbuild
    simpa only [identifiers, List.append_assoc, List.cons_append] using hform
  | noMinor hv => exact .mk (.major hmajor) hpre hbuild

theorem isTagForm_iff_spells {v : Semver} : IsTagForm cs v ↔ Spells cs v :=
  ⟨spells_of_isTagForm, isTagForm_of_spells⟩

/-! ## Reading -/

/-- A version starts with a digit, so a `v` before it can only be the one that is dropped. -/
theorem dropV_of_spells {v : Semver} (h : Spells cs v) : dropV cs = cs := by
  obtain ⟨rest, hcs⟩ := h.exists_eq_append
  obtain ⟨d, ds, hdigits⟩ :=
    List.exists_cons_of_ne_nil (Nat.toDigits_ne_nil (n := v.major) (b := 10))
  have hdigit : d.isDigit = true :=
    isDigit_of_mem_toDigits (n := v.major) (hdigits ▸ List.mem_cons_self)
  rw [hcs, hdigits, List.cons_append]
  exact dropV_of_ne (ne_of_isDigit hdigit (by decide)) (ne_of_isDigit hdigit (by decide))

theorem dropV_cases (cs : List Char) :
    cs = dropV cs ∨ cs = 'v' :: dropV cs ∨ cs = 'V' :: dropV cs := by
  unfold dropV
  split
  · exact .inr (.inl rfl)
  · exact .inr (.inr rfl)
  · exact .inl rfl

theorem readLenient_eq_ok_iff {text : String} {v : Semver} :
    readLenient text = .ok v ↔ Names text v := by
  rw [readLenient, readPadded_eq_ok_iff]
  constructor
  · intro h
    exact ⟨_, isTagForm_iff_spells.2 h, dropV_cases _⟩
  · rintro ⟨cs, hform, hcs⟩
    have hspells := isTagForm_iff_spells.1 hform
    rcases hcs with hcs | hcs | hcs <;> rw [hcs]
    · rwa [dropV_of_spells hspells]
    · exact hspells
    · exact hspells

end Semver

namespace Tag

variable {text : String} {tag : Tag}

theorem read_eq_ok_iff :
    read text = .ok tag ↔ Semver.readLenient text = .ok tag.version ∧
    tag.text = Text.trimmed text := by
  unfold read
  split
  · rename_i e he
    simp [he]
  · rename_i version hversion
    constructor
    · intro h
      obtain rfl := Except.ok.inj h
      exact ⟨hversion, rfl⟩
    · rintro ⟨hreads, htext⟩
      obtain ⟨text', version', _, _⟩ := tag
      obtain rfl : version = version' := Except.ok.inj (hversion.symm.trans hreads)
      obtain rfl : text' = Text.trimmed text := htext
      rfl

theorem text_of_read (h : read text = .ok tag) : tag.text = Text.trimmed text :=
  (read_eq_ok_iff.1 h).2

theorem read_text (tag : Tag) : read tag.text = .ok tag :=
  read_eq_ok_iff.2 ⟨tag.reads, tag.isTrimmed.symm⟩

/-- A text is read as a tag just if it has the form of one. The tag has the version that the form
stands for and the trimmed text, from which it is read again. -/
theorem read_follows_grammar (text : String) :
    ((∃ tag, read text = .ok tag) ↔ ∃ v, Semver.Names text v) ∧
      (∀ tag, read text = .ok tag ↔ Semver.Names text tag.version ∧ tag.text = Text.trimmed text) ∧
      ∀ tag, read text = .ok tag → read tag.text = .ok tag := by
  refine ⟨?_, fun tag => ?_, fun tag _ => read_text tag⟩
  · constructor
    · rintro ⟨tag, htag⟩
      exact ⟨tag.version, Semver.readLenient_eq_ok_iff.1 (read_eq_ok_iff.1 htag).1⟩
    · rintro ⟨v, hv⟩
      have hreads := Semver.readLenient_eq_ok_iff.2 hv
      refine ⟨⟨Text.trimmed text, v, Text.trimmed_trimmed text, ?_⟩, read_eq_ok_iff.2 ⟨hreads, rfl⟩⟩
      rw [← hreads]
      simp [Semver.readLenient, Text.trimmed, Text.trim_trim]
  · rw [read_eq_ok_iff, Semver.readLenient_eq_ok_iff]

/-- A patch number may be left out before an identifier, and a build identifier may have
leading zeros. -/
example : (read " V1.2-rc.1+007 ").toOption.map (fun tag => (tag.text, tag.version)) =
    some ("V1.2-rc.1+007", ⟨1, 2, 0, ["rc", "1"], ["007"]⟩) := by
  decide +kernel

end Tag

end Depsolve
