import Depsolve.Proofs.Semver.Requirement
import Depsolve.Proofs.Semver.Spelling
import Depsolve.Proofs.Version.Order

/-!
# Versions as requirements

A comparator without an operator asks for compatible versions, so a version stands for a requirement
that the version itself satisfies. The reader of requirements knows all spellings of versions but
those in which a number is left out before an identifier (`Spells.exists_readChars`,
`Spells.readChars_ne_ok`).
-/

namespace Depsolve.Semver

open Std

variable {cs rest : List Char} {c : Comparator} {last : Position} {v : Semver}

/-! ## Comparators without an operator -/

theorem readOp_toDigits (n : Nat) :
    readOp (Nat.toDigits 10 n ++ rest) = (none, Nat.toDigits 10 n ++ rest) :=
  readOp_sign .wildcard n

/-- A comparator is read without its operator as one that asks for compatible versions. -/
theorem readComparator_toDigits {build : List String} (hop : c.op = .caret) (h : c.Proper)
    (hbuild : IsIdentifier? .build build)
    (hshort : (∀ minor patch pre, c.detail ≠ .full minor patch pre) → build = [])
    (hrest : c.EndsBefore rest) :
    ∃ last, readComparator
      (Nat.toDigits 10 c.major ++ (c.tail ++ ((identifierText "+" build).toList ++ rest))) =
      .ok (c, last, rest) :=
  readComparator_of_readOp (readOp_toDigits c.major) (.inl ⟨rfl, .inl hop⟩) h hbuild hshort hrest

theorem Requirement.readChars_toDigits (n : Nat) : readChars (Nat.toDigits 10 n ++ rest) =
    (readComparators (maxComparators - 1) (Nat.toDigits 10 n ++ rest)).map Requirement.mk := by
  have hspaces : dropSpaces (Nat.toDigits 10 n ++ rest) = Nat.toDigits 10 n ++ rest :=
    dropSpaces_of_stopsAt (stopsAt_toDigits n fun d hd => beq_eq_false_iff_ne.2
      (ne_of_isDigit hd (by decide)))
  unfold readChars
  rw [hspaces]
  dsimp only
  rw [wildcard?_toDigits]

theorem readComparators_of_cons {limit : Nat} {d : Char}
    (h : readComparator cs = .ok (c, last, d :: rest)) (hd : d ≠ ',') :
    readComparators limit cs = .error (.expectedComma last d) := by
  unfold readComparators
  rw [h]
  exact if_neg hd

/-- A comparator without its operator is a requirement. -/
theorem Requirement.readChars_compatible {build : List String} (hop : c.op = .caret) (h : c.Proper)
    (hbuild : IsIdentifier? .build build)
    (hshort : (∀ minor patch pre, c.detail ≠ .full minor patch pre) → build = []) :
    readChars (Nat.toDigits 10 c.major ++ (c.tail ++ (identifierText "+" build).toList)) =
      .ok ⟨[c]⟩ := by
  obtain ⟨last, hread⟩ := readComparator_toDigits hop h hbuild hshort (ends_nil.endsBefore c)
  rw [List.append_nil] at hread
  rw [readChars_toDigits, readComparators_eq_ok_iff.2 ⟨.singleton hread, Nat.le_add_left _ _⟩]
  rfl

/-- An identifier behind a missing number is not read. -/
theorem Requirement.readChars_ne_ok_of_short (hop : c.op = .caret) (h : c.Proper)
    (hshort : ∀ minor patch pre, c.detail ≠ .full minor patch pre) {pre build : List String}
    (hids : ¬ (pre = [] ∧ build = [])) (r : Requirement) :
    readChars (Nat.toDigits 10 c.major ++ (c.tail ++ identifiers pre build)) ≠ .ok r := by
  obtain ⟨d, rest, hcons, hd⟩ : ∃ d rest, identifiers pre build = d :: rest ∧
    (d = '-' ∨ d = '+') := by
    cases pre with
    | cons s pre => exact ⟨'-', _, by rw [identifiers, toList_identifierText]; rfl, .inl rfl⟩
    | nil =>
      cases build with
      | cons s build =>
        exact ⟨'+', _,
          by rw [identifiers, toList_identifierText, toList_identifierText]; rfl, .inr rfl⟩
      | nil => exact absurd ⟨rfl, rfl⟩ hids
  have hstops : ∀ {p : Char → Bool}, p '-' = false → p '+' = false → StopsAt p (d :: rest) := by
    intro p hminus hplus
    apply stopsAt_cons
    rcases hd with rfl | rfl
    · exact hminus
    · exact hplus
  have hends : c.EndsBefore (d :: rest) :=
    ⟨hstops (by decide) (by decide), hstops (by decide) (by decide), hstops (by decide) (by decide),
      fun minor patch pre hfull => absurd hfull (hshort minor patch pre)⟩
  have hcomma : d ≠ ',' := by
    rcases hd with rfl | rfl <;> decide
  have hbuild : IsIdentifier? .build [] := .inl rfl
  obtain ⟨last, hread⟩ := readComparator_toDigits hop h hbuild (fun _ => rfl) hends
  have hread : readComparator (Nat.toDigits 10 c.major ++ (c.tail ++ d :: rest)) =
      .ok (c, last, d :: rest) := hread
  rw [hcons, readChars_toDigits, readComparators_of_cons hread hcomma]
  intro heq
  cases heq

/-! ## Spellings -/

/-- A version is compatible with itself. -/
theorem Requirement.admits_caret (v : Semver) :
    Requirement.admits ⟨[⟨.caret, v.major, .full v.minor v.patch v.pre⟩]⟩ v = true := by
  have hpre : comparePre v.pre v.pre = .eq := ReflCmp.compare_self
  have hholds : Comparator.holds ⟨.caret, v.major, .full v.minor v.patch v.pre⟩ v := by
    simp [Comparator.holds, Comparator.isCaret, hpre]
  -- a pre-release is named by the only comparator
  simp [admits, hholds, Comparator.namesPreOf]

/-- The text of a version, as a requirement, asks for the versions that are compatible with it. -/
theorem exists_readChars_toText (h : v.WellFormed) :
    ∃ c, Requirement.readChars v.toText.toList = .ok ⟨[c]⟩ ∧ Requirement.admits ⟨[c]⟩ v = true := by
  obtain ⟨major, minor, patch, pre, build⟩ := v
  have hproper : Comparator.Proper ⟨.caret, major, .full minor patch pre⟩ :=
    ⟨h.major, ⟨h.minor, h.patch, h.pre⟩, Op.noConfusion⟩
  have hread := Requirement.readChars_compatible rfl hproper h.build fun hshort =>
    absurd rfl (hshort _ _ _)
  refine ⟨_, ?_, Requirement.admits_caret ⟨major, minor, patch, pre, build⟩⟩
  rw [toList_toText, ← hread]
  simp [Comparator.tail, identifiers]

/-- A spelling that leaves numbers out only where no identifier follows is a requirement that its
own version satisfies. -/
theorem Spells.exists_readChars (h : Spells cs v)
    (hwritten : v.pre = [] ∧ v.build = [] ∨ cs = v.toText.toList) :
    ∃ c, Requirement.readChars cs = .ok ⟨[c]⟩ ∧ Requirement.admits ⟨[c]⟩ v = true := by
  rcases hwritten with ⟨hpre, hbuild⟩ | rfl
  · cases h with
    | full hv => exact exists_readChars_toText hv
    | @noPatch major minor pre build hv =>
      obtain rfl : pre = [] := hpre
      obtain rfl : build = [] := hbuild
      have hproper : Comparator.Proper ⟨.caret, major, .minor minor⟩ :=
        ⟨hv.major, hv.minor, Op.noConfusion⟩
      have hread := Requirement.readChars_compatible rfl hproper (.inl rfl) fun _ => rfl
      refine ⟨⟨.caret, major, .minor minor⟩, ?_, ?_⟩
      · rw [← hread]
        simp [Comparator.tail, Op.star, identifiers, identifierText]
      · simp [Requirement.admits, Comparator.holds, Comparator.isCaret]
    | @noMinor major pre build hv =>
      obtain rfl : pre = [] := hpre
      obtain rfl : build = [] := hbuild
      have hproper : Comparator.Proper ⟨.caret, major, .none⟩ := ⟨hv.major, trivial, Op.noConfusion⟩
      refine ⟨_, Requirement.readChars_compatible rfl hproper (.inl rfl) fun _ => rfl, ?_⟩
      simp [Requirement.admits, Comparator.holds, Comparator.isCaret]
  · exact exists_readChars_toText h.wellFormed

/-- A spelling that leaves a number out before an identifier is no requirement. -/
theorem Spells.readChars_ne_ok (h : Spells cs v) (hids : ¬ (v.pre = [] ∧ v.build = []))
    (hcs : cs ≠ v.toText.toList) (r : Requirement) : Requirement.readChars cs ≠ .ok r := by
  cases h with
  | full hv => exact absurd rfl hcs
  | @noPatch major minor pre build hv =>
    have hproper : Comparator.Proper ⟨.caret, major, .minor minor⟩ :=
      ⟨hv.major, hv.minor, Op.noConfusion⟩
    intro hr
    apply Requirement.readChars_ne_ok_of_short rfl hproper (fun _ _ _ => Detail.noConfusion) hids r
    rw [← hr]
    simp [Comparator.tail, Op.star]
  | @noMinor major pre build hv =>
    have hproper : Comparator.Proper ⟨.caret, major, .none⟩ := ⟨hv.major, trivial, Op.noConfusion⟩
    exact Requirement.readChars_ne_ok_of_short rfl hproper (fun _ _ _ => Detail.noConfusion) hids r

theorem Spells.admits_of_readChars (h : Spells cs v) {r : Requirement}
    (hr : Requirement.readChars cs = .ok r) : r.admits v = true := by
  by_cases hwritten : v.pre = [] ∧ v.build = [] ∨ cs = v.toText.toList
  · obtain ⟨c, hc, hadmits⟩ := h.exists_readChars hwritten
    obtain rfl := Except.ok.inj (hr.symm.trans hc)
    exact hadmits
  · obtain ⟨hids, hcs⟩ := not_or.1 hwritten
    exact absurd hr (h.readChars_ne_ok hids hcs r)

/-! ## Requirements that are spellings -/

/-- A wildcard. -/
def isWildcardChar (c : Char) : Bool :=
  c == '*' || c == 'x' || c == 'X'

theorem wildcard?_eq_none (h : ∀ c ∈ cs, isWildcardChar c = false) : wildcard? cs = none := by
  unfold wildcard?
  split
  · rename_i c rest
    have hc := h c List.mem_cons_self
    simp only [isWildcardChar, Bool.or_eq_false_iff, beq_eq_false_iff_ne] at hc
    simp [hc]
  · rfl

/-- Without wildcards a part is a number, or absent. -/
theorem readPart_cases {pos last last' : Position} {part : Part}
    (hstar : ∀ c ∈ cs, isWildcardChar c = false)
    (h : readPart pos last false cs = .ok (part, last', rest)) :
    (part = .absent ∧ rest = cs ∧ StopsAt (· == '.') cs) ∨
      ∃ n, part = .number n ∧ n ≤ maxNumber ∧ cs = '.' :: (Nat.toDigits 10 n ++ rest) := by
  unfold readPart at h
  split at h
  · rw [wildcard?_eq_none fun c hc => hstar c (List.mem_cons_of_mem _ hc)] at h
    obtain ⟨⟨n, rest'⟩, hnumber, h⟩ := bind_eq_ok_iff.1 h
    obtain ⟨rfl, hleft⟩ := Prod.mk.inj (Except.ok.inj h)
    obtain ⟨-, rfl⟩ := Prod.mk.inj hleft
    obtain ⟨rfl, hle, -⟩ := readNumber_eq_ok_iff.1 hnumber
    exact .inr ⟨n, rfl, hle, rfl⟩
  · rename_i hdot
    obtain ⟨rfl, hleft⟩ := Prod.mk.inj (Except.ok.inj h)
    obtain ⟨-, rfl⟩ := Prod.mk.inj hleft
    refine .inl ⟨rfl, rfl, fun c hc => beq_eq_false_iff_ne.2 ?_⟩
    rintro rfl
    obtain ⟨rest', hrest⟩ := List.head?_eq_some_iff.1 hc
    exact hdot rest' hrest

theorem dropSpaces_of_not_mem (h : ' ' ∉ cs) : dropSpaces cs = cs := by
  apply dropSpaces_of_stopsAt
  intro c hc
  apply beq_eq_false_iff_ne.2
  rintro rfl
  exact h (List.mem_of_mem_head? hc)

/-- What is read of a comparator without an operator, a wildcard and spaces is a spelling. -/
theorem spells_of_readComparator (hop : readOp cs = (none, cs))
    (hstar : ∀ c ∈ cs, isWildcardChar c = false) (hspace : ' ' ∉ cs)
    (h : readComparator cs = .ok (c, last, rest)) :
    ∃ word v, cs = word ++ rest ∧ Spells word v := by
  have hfront := dropSpaces_of_not_mem hspace
  unfold readComparator at h
  rw [hop] at h
  dsimp only at h
  rw [hfront] at h
  obtain ⟨⟨major, rest₁⟩, hread, h₁⟩ := bind_eq_ok_iff.1 h
  obtain ⟨⟨minor, last₁, rest₂⟩, hminor, h₂⟩ := bind_eq_ok_iff.1 h₁
  obtain ⟨⟨patch, last₂, rest₃⟩, hpatch, h₃⟩ := bind_eq_ok_iff.1 h₂
  dsimp only at h₃ hminor hpatch
  obtain ⟨rfl, hmajor, -⟩ := readNumber_eq_ok_iff.1 hread
  have hstar₁ : ∀ c ∈ rest₁, isWildcardChar c = false :=
    fun c hc => hstar c (List.mem_append_right _ hc)
  have hspace₁ : ' ' ∉ rest₁ := fun hmem => hspace (List.mem_append_right _ hmem)
  rcases readPart_cases hstar₁ hminor with ⟨rfl, rfl, hdot⟩ | ⟨m, rfl, hm, rfl⟩
  · -- without a minor number there is no patch number
    rcases readPart_cases hstar₁ hpatch with ⟨rfl, rfl, -⟩ | ⟨p, rfl, -, rfl⟩
    · obtain ⟨-, hlast⟩ := Prod.mk.inj (Except.ok.inj h₃)
      obtain rfl := (dropSpaces_of_not_mem hspace₁).symm.trans (Prod.mk.inj hlast).2
      have hv : WellFormed ⟨major, 0, 0, [], []⟩ :=
        ⟨⟨hmajor, Nat.zero_le _, Nat.zero_le _, .inl rfl⟩, .inl rfl⟩
      exact ⟨_, _, by simp [identifiers, identifierText], .noMinor hv⟩
    · exact absurd (hdot '.' rfl) (by decide)
  · have hstar₂ : ∀ c ∈ rest₂, isWildcardChar c = false := fun c hc =>
      hstar₁ c (List.mem_cons_of_mem _ (List.mem_append_right _ hc))
    have hspace₂ : ' ' ∉ rest₂ :=
      fun hmem => hspace₁ (List.mem_cons_of_mem _ (List.mem_append_right _ hmem))
    rcases readPart_cases hstar₂ hpatch with ⟨rfl, rfl, -⟩ | ⟨p, rfl, hp, rfl⟩
    · obtain ⟨-, hlast⟩ := Prod.mk.inj (Except.ok.inj h₃)
      obtain rfl := (dropSpaces_of_not_mem hspace₂).symm.trans (Prod.mk.inj hlast).2
      have hv : WellFormed ⟨major, m, 0, [], []⟩ :=
        ⟨⟨hmajor, hm, Nat.zero_le _, .inl rfl⟩, .inl rfl⟩
      exact ⟨_, _, by simp [identifiers, identifierText], .noPatch hv⟩
    · obtain ⟨⟨pre, last₃, rest₄⟩, hpre, h₄⟩ := bind_eq_ok_iff.1 h₃
      obtain ⟨⟨build, last₄, rest₅⟩, hbuild, h₅⟩ := bind_eq_ok_iff.1 h₄
      dsimp only at hpre hbuild h₅
      have hv : WellFormed ⟨major, m, p, pre, build⟩ :=
        ⟨⟨hmajor, hm, hp, isIdentifier?_of_readSigned hpre⟩, isIdentifier?_of_readSigned hbuild⟩
      obtain rfl := eq_of_readSigned hpre
      obtain rfl := eq_of_readSigned hbuild
      have hspace₅ : ' ' ∉ rest₅ := fun hmem => hspace₂ (List.mem_cons_of_mem _
        (List.mem_append_right _ (List.mem_append_right _ (List.mem_append_right _ hmem))))
      obtain ⟨-, hlast⟩ := Prod.mk.inj (Except.ok.inj h₅)
      obtain rfl := (dropSpaces_of_not_mem hspace₅).symm.trans (Prod.mk.inj hlast).2
      exact ⟨_, _, by simp [toList_toText, identifiers], .full hv⟩

/-- A requirement without an operator, a wildcard, spaces and commas is a spelling. -/
theorem spells_of_readChars {r : Requirement} (hop : readOp cs = (none, cs))
    (hstar : ∀ c ∈ cs, isWildcardChar c = false) (hspace : ' ' ∉ cs) (hcomma : ',' ∉ cs)
    (h : Requirement.readChars cs = .ok r) : ∃ v, Spells cs v := by
  unfold Requirement.readChars at h
  dsimp only at h
  rw [dropSpaces_of_not_mem hspace, wildcard?_eq_none hstar] at h
  obtain ⟨comparators, hread, -⟩ := map_eq_ok_iff.1 h
  cases (readComparators_eq_ok_iff.1 hread).1 with
  | singleton hc =>
    obtain ⟨word, v, rfl, hv⟩ := spells_of_readComparator hop hstar hspace hc
    rw [List.append_nil]
    exact ⟨v, hv⟩
  | cons hc _ =>
    obtain ⟨word, v, rfl, -⟩ := spells_of_readComparator hop hstar hspace hc
    exact absurd (List.mem_append_right _ List.mem_cons_self) hcomma

end Depsolve.Semver
