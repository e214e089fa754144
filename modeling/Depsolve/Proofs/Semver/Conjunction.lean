import Depsolve.Proofs.Semver.Compatible

/-!
# Requirements joined by commas

No reader goes beyond a comma, so what is read of a text is also read of the text with a comma and
more behind it (`readComparator_append`), and what is passed over are characters of comparators
(`passes_of_readComparator`). Lists of comparators can therefore be joined
(`ListsComparators.append`) and cut (`ListsComparators.exists_of_comma`) at commas, and two
requirements with a comma between them are one (`Requirement.readChars_append`).
-/

namespace Depsolve.Semver

variable {pos last last' : Position} {n : Nat} {cs rest more : List Char} {segments : List String}

/-! ## What may follow -/

theorem readNumber_append (hmore : Ends more) (h : readNumber pos cs = .ok (n, rest)) :
    readNumber pos (cs ++ more) = .ok (n, rest ++ more) := by
  obtain ⟨rfl, hle, hrest⟩ := readNumber_eq_ok_iff.1 h
  refine readNumber_eq_ok_iff.2 ⟨List.append_assoc .., hle, ?_⟩
  cases rest with
  | nil => exact hmore.stopsAt (by decide)
  | cons c rest => exact hrest

/-- What ends a text brings no other character to its front. -/
theorem Ends.append_ne_cons {d : Char} (hmore : Ends more) (hd : d ≠ ',') (h : ∀ cs', cs ≠ d :: cs')
    (cs' : List Char) : cs ++ more ≠ d :: cs' := by
  cases cs with
  | nil =>
    rintro rfl
    exact hd (hmore d rfl)
  | cons c cs =>
    intro heq
    exact h cs (by rw [(List.cons.inj heq).1])

theorem readOp_append (hmore : Ends more) (cs : List Char) :
    readOp (cs ++ more) = ((readOp cs).1, (readOp cs).2 ++ more) := by
  fun_cases readOp cs with
  | case1 => rfl
  | case2 => rfl
  | case3 rest h =>
    have hne := hmore.append_ne_cons (d := '=') (by decide) h
    rw [List.cons_append, readOp]
    exact hne
  | case4 => rfl
  | case5 rest h =>
    have hne := hmore.append_ne_cons (d := '=') (by decide) h
    rw [List.cons_append, readOp]
    exact hne
  | case6 => rfl
  | case7 => rfl
  | case8 rest hexact hgreaterEq hgreater hlessEq hless htilde hcaret =>
    rw [readOp]
    · exact hmore.append_ne_cons (by decide) hexact
    · exact fun _ => hmore.append_ne_cons (by decide) hgreater _
    · exact hmore.append_ne_cons (by decide) hgreater
    · exact fun _ => hmore.append_ne_cons (by decide) hless _
    · exact hmore.append_ne_cons (by decide) hless
    · exact hmore.append_ne_cons (by decide) htilde
    · exact hmore.append_ne_cons (by decide) hcaret

theorem dropSpaces_append (hmore : Ends more) (cs : List Char) :
    dropSpaces (cs ++ more) = dropSpaces cs ++ more :=
  dropWhile_append_of_stopsAt cs (hmore.stopsAt (by decide))

/-- A wildcard is told by the first character. -/
theorem wildcard?_append (hne : cs ≠ []) (more : List Char) :
    wildcard? (cs ++ more) = (wildcard? cs).map fun (c, rest) => (c, rest ++ more) := by
  obtain ⟨c, cs, rfl⟩ := List.exists_cons_of_ne_nil hne
  rw [List.cons_append]
  unfold wildcard?
  dsimp only
  split <;> rfl

theorem readPart_append {afterStar : Bool} {part : Part} (hmore : Ends more)
    (h : readPart pos last afterStar cs = .ok (part, last', rest)) :
    readPart pos last afterStar (cs ++ more) = .ok (part, last', rest ++ more) := by
  fun_cases readPart pos last afterStar cs with
  | case1 cs c rest' hwild =>
    rw [readPart, hwild] at h
    cases h
    have hne : cs ≠ [] := by
      rintro rfl
      cases hwild
    rw [List.cons_append, readPart, wildcard?_append hne, hwild]
    rfl
  | case2 cs hwild hstar =>
    rw [readPart, hwild] at h
    dsimp only at h
    rw [if_pos hstar] at h
    cases h
  | case3 cs hwild hstar =>
    rw [readPart, hwild] at h
    dsimp only at h
    rw [if_neg hstar] at h
    obtain ⟨⟨n, rest'⟩, hnumber, h⟩ := bind_eq_ok_iff.1 h
    cases h
    have hne : cs ≠ [] := by
      rintro rfl
      cases hnumber
    rw [List.cons_append, readPart, wildcard?_append hne, hwild]
    dsimp only [Option.map_none]
    rw [if_neg hstar, readNumber_append hmore hnumber]
    rfl
  | case4 cs hdot =>
    rw [readPart] at h
    · cases h
      rw [readPart]
      exact hmore.append_ne_cons (by decide) hdot
    · exact hdot

theorem readIdentifier_append (hmore : Ends more)
    (h : readIdentifier pos cs = .ok (segments, rest)) :
    readIdentifier pos (cs ++ more) = .ok (segments, rest ++ more) := by
  have hstop : StopsAt isIdentifierChar more := hmore.stopsAt (by decide)
  have htake := takeWhile_append_of_stopsAt cs hstop
  have hdrop := dropWhile_append_of_stopsAt cs hstop
  unfold isIdentifierChar at htake hdrop
  unfold readIdentifier at h ⊢
  dsimp only at h ⊢
  obtain ⟨⟨⟩, hchecked, h⟩ := bind_eq_ok_iff.1 h
  obtain ⟨rfl, rfl⟩ := Prod.mk.inj (Except.ok.inj h)
  rw [htake, hdrop, hchecked]
  rfl

theorem readSigned_append {sign : Char} (hmore : Ends more) (hsign : sign ≠ ',')
    (h : readSigned sign pos last cs = .ok (segments, last', rest)) :
    readSigned sign pos last (cs ++ more) = .ok (segments, last', rest ++ more) := by
  fun_cases readSigned sign pos last cs with
  | case1 =>
    cases h
    exact readSigned_absent (hmore.stopsAt (beq_eq_false_iff_ne.2 hsign.symm))
  | case2 cs =>
    rw [readSigned, if_pos rfl] at h
    obtain ⟨⟨segments', rest'⟩, hread, h⟩ := bind_eq_ok_iff.1 h
    cases h
    rw [List.cons_append, readSigned, if_pos rfl, readIdentifier_append hmore hread]
    rfl
  | case3 c cs hc =>
    rw [readSigned, if_neg hc] at h
    cases h
    rw [List.cons_append, readSigned, if_neg hc]

/-- A comparator is read up to a comma, whatever follows it. -/
theorem readComparator_append {c : Comparator} (hmore : Ends more)
    (h : readComparator cs = .ok (c, last, rest)) :
    readComparator (cs ++ more) = .ok (c, last, rest ++ more) := by
  unfold readComparator at h ⊢
  rw [readOp_append hmore]
  dsimp only at h ⊢
  rw [dropSpaces_append hmore]
  obtain ⟨⟨major, rest₁⟩, hmajor, h₁⟩ := bind_eq_ok_iff.1 h
  obtain ⟨⟨minor, last₁, rest₂⟩, hminor, h₂⟩ := bind_eq_ok_iff.1 h₁
  obtain ⟨⟨patch, last₂, rest₃⟩, hpatch, h₃⟩ := bind_eq_ok_iff.1 h₂
  dsimp only at hminor hpatch h₃
  rw [readNumber_append hmore hmajor]
  simp only [bind, Except.bind, readPart_append hmore hminor, readPart_append hmore hpatch]
  split at h₃
  · rename_i m p
    obtain ⟨⟨pre, last₃, rest₄⟩, hpre, h₄⟩ := bind_eq_ok_iff.1 h₃
    obtain ⟨⟨build, last₄, rest₅⟩, hbuild, h₅⟩ := bind_eq_ok_iff.1 h₄
    cases h₅
    simp only [readSigned_append hmore (by decide) hpre, readSigned_append hmore (by decide) hbuild,
      dropSpaces_append hmore, pure, Except.pure]
  all_goals
    cases h₃
    simp only [dropSpaces_append hmore, pure, Except.pure]

/-! ## What is passed over -/

/-- The characters of comparators. -/
def isComparatorChar (c : Char) : Bool :=
  isSegmentChar c || ['=', '>', '<', '~', '^', '.', '+', '*', ' '].contains c

/-- From one text to what is left of it only characters of comparators are passed over. -/
def Passes (cs rest : List Char) : Prop :=
  ∃ front, cs = front ++ rest ∧ ∀ c ∈ front, isComparatorChar c = true

theorem Passes.refl (cs : List Char) : Passes cs cs := ⟨[], rfl, fun _ hc => nomatch hc⟩

theorem Passes.trans {ds : List Char} (h : Passes cs ds) (hrest : Passes ds rest) :
    Passes cs rest := by
  obtain ⟨front, rfl, hfront⟩ := h
  obtain ⟨back, rfl, hback⟩ := hrest
  exact ⟨front ++ back, (List.append_assoc ..).symm, List.forall_mem_append.2 ⟨hfront, hback⟩⟩

theorem Passes.cons {c : Char} (hc : isComparatorChar c = true) (h : Passes cs rest) :
    Passes (c :: cs) rest := by
  obtain ⟨front, rfl, hfront⟩ := h
  exact ⟨c :: front, rfl, List.forall_mem_cons.2 ⟨hc, hfront⟩⟩

theorem isComparatorChar_of_isSegmentChar {c : Char} (h : isSegmentChar c = true) :
    isComparatorChar c = true := by
  rw [isComparatorChar, h, Bool.true_or]

theorem passes_of_readNumber (h : readNumber pos cs = .ok (n, rest)) : Passes cs rest := by
  obtain ⟨rfl, -, -⟩ := readNumber_eq_ok_iff.1 h
  refine ⟨_, rfl, fun c hc => isComparatorChar_of_isSegmentChar ?_⟩
  simp [isSegmentChar, Char.isAlphanum, isDigit_of_mem_toDigits hc]

theorem exists_eq_readOp (cs : List Char) :
    ∃ signs, cs = signs ++ (readOp cs).2 ∧ ∀ c ∈ signs, c ∈ ['=', '>', '<', '~', '^'] := by
  fun_cases readOp cs with
  | case1 rest => exact ⟨['='], rfl, by simp⟩
  | case2 rest => exact ⟨['>', '='], rfl, by simp⟩
  | case3 rest => exact ⟨['>'], rfl, by simp⟩
  | case4 rest => exact ⟨['<', '='], rfl, by simp⟩
  | case5 rest => exact ⟨['<'], rfl, by simp⟩
  | case6 rest => exact ⟨['~'], rfl, by simp⟩
  | case7 rest => exact ⟨['^'], rfl, by simp⟩
  | case8 => exact ⟨[], rfl, by simp⟩

theorem exists_eq_dropSpaces (cs : List Char) :
    ∃ spaces, cs = spaces ++ dropSpaces cs ∧ ∀ c ∈ spaces, c = ' ' :=
  ⟨cs.takeWhile (· == ' '), List.takeWhile_append_dropWhile.symm, fun c hc => by
    simpa using List.all_eq_true.1 List.all_takeWhile c hc⟩

theorem passes_dropSpaces (cs : List Char) : Passes cs (dropSpaces cs) := by
  obtain ⟨spaces, hcs, hspaces⟩ := exists_eq_dropSpaces cs
  exact ⟨spaces, hcs, fun c hc => hspaces c hc ▸ by decide⟩

theorem passes_readOp (cs : List Char) : Passes cs (readOp cs).2 := by
  obtain ⟨signs, hcs, hsigns⟩ := exists_eq_readOp cs
  have hall : ∀ c ∈ ['=', '>', '<', '~', '^'], isComparatorChar c = true :=
    List.all_eq_true.1 (by decide)
  exact ⟨signs, hcs, fun c hc => hall c (hsigns c hc)⟩

theorem wildcard?_eq_some_iff {c : Char} :
    wildcard? cs = some (c, rest) ↔ cs = c :: rest ∧ isWildcardChar c = true := by
  cases cs with
  | nil => simp [wildcard?]
  | cons d cs =>
    simp only [wildcard?, Option.ite_none_right_eq_some, Option.some.injEq, Prod.mk.injEq,
      List.cons.injEq, isWildcardChar, Bool.or_eq_true, beq_iff_eq]
    constructor
    · rintro ⟨hd, rfl, rfl⟩
      exact ⟨⟨rfl, rfl⟩, or_assoc.2 hd⟩
    · rintro ⟨⟨rfl, rfl⟩, hd⟩
      exact ⟨or_assoc.1 hd, rfl, rfl⟩

theorem isComparatorChar_of_isWildcardChar {c : Char} (h : isWildcardChar c = true) :
    isComparatorChar c = true := by
  simp only [isWildcardChar, Bool.or_eq_true, beq_iff_eq] at h
  rcases h with (rfl | rfl) | rfl <;> decide

theorem passes_of_readPart {afterStar : Bool} {part : Part}
    (h : readPart pos last afterStar cs = .ok (part, last', rest)) : Passes cs rest := by
  unfold readPart at h
  split at h
  · refine .cons (by decide) ?_
    split at h
    · rename_i c rest' hwild
      cases h
      obtain ⟨rfl, hc⟩ := wildcard?_eq_some_iff.1 hwild
      exact .cons (isComparatorChar_of_isWildcardChar hc) (.refl _)
    · split at h
      · exact nomatch h
      · obtain ⟨⟨n, rest'⟩, hnumber, h⟩ := bind_eq_ok_iff.1 h
        cases h
        exact passes_of_readNumber hnumber
  · cases h
    exact .refl cs

theorem passes_of_readSigned {sign : Char} (hsign : isComparatorChar sign = true)
    (h : readSigned sign pos last cs = .ok (segments, last', rest)) : Passes cs rest :=
  ⟨_, eq_of_readSigned h,
    forall_mem_identifierText sign (isIdentifier?_of_readSigned h) hsign (by decide)
    fun _ => isComparatorChar_of_isSegmentChar⟩

theorem passes_of_readComparator {c : Comparator} (h : readComparator cs = .ok (c, last, rest)) :
    Passes cs rest := by
  unfold readComparator at h
  dsimp only at h
  obtain ⟨⟨major, rest₁⟩, hmajor, h₁⟩ := bind_eq_ok_iff.1 h
  obtain ⟨⟨minor, last₁, rest₂⟩, hminor, h₂⟩ := bind_eq_ok_iff.1 h₁
  obtain ⟨⟨patch, last₂, rest₃⟩, hpatch, h₃⟩ := bind_eq_ok_iff.1 h₂
  dsimp only at hminor hpatch h₃
  have hparts : Passes cs rest₃ := (passes_readOp cs).trans <| (passes_dropSpaces _).trans <|
    (passes_of_readNumber hmajor).trans <|
    (passes_of_readPart hminor).trans (passes_of_readPart hpatch)
  split at h₃
  · obtain ⟨⟨pre, last₃, rest₄⟩, hpre, h₄⟩ := bind_eq_ok_iff.1 h₃
    obtain ⟨⟨build, last₄, rest₅⟩, hbuild, h₅⟩ := bind_eq_ok_iff.1 h₄
    cases h₅
    exact hparts.trans <| (passes_of_readSigned (by decide) hpre).trans <|
      (passes_of_readSigned (by decide) hbuild).trans (passes_dropSpaces _)
  all_goals
    cases h₃
    exact hparts.trans (passes_dropSpaces _)

/-- What may stand before the major number of a comparator: operators and spaces. -/
def isSignChar (c : Char) : Bool :=
  ['=', '>', '<', '~', '^', ' '].contains c

theorem exists_eq_of_readComparator {c : Comparator} (h : readComparator cs = .ok (c, last, rest)) :
    ∃ signs n tail, cs = signs ++ (Nat.toDigits 10 n ++ tail) ∧
      ∀ c ∈ signs, isSignChar c = true := by
  unfold readComparator at h
  dsimp only at h
  obtain ⟨⟨major, rest₁⟩, hmajor, -⟩ := bind_eq_ok_iff.1 h
  obtain ⟨signs, hcs, hsigns⟩ := exists_eq_readOp cs
  obtain ⟨spaces, hop, hspaces⟩ := exists_eq_dropSpaces (readOp cs).2
  obtain ⟨hnumber, -, -⟩ := readNumber_eq_ok_iff.1 hmajor
  have hall : ∀ c ∈ ['=', '>', '<', '~', '^'], isSignChar c = true := List.all_eq_true.1 (by decide)
  refine ⟨signs ++ spaces, major, rest₁, ?_, ?_⟩
  · rw [List.append_assoc, ← hnumber, ← hop, ← hcs]
  · refine List.forall_mem_append.2 ⟨fun c hc => hall c (hsigns c hc), fun c hc => ?_⟩
    rw [hspaces c hc]
    decide

/-! ## Lists of comparators -/

namespace ListsComparators

variable {ds : List Char} {left right : List Comparator}

/-- Two lists with a comma between them are one list. -/
theorem append (hleft : ListsComparators cs left)
    (hright : ListsComparators (dropSpaces ds) right) :
    ListsComparators (cs ++ ',' :: ds) (left ++ right) := by
  have hmore : Ends (',' :: ds) := ends_comma ds
  induction hleft with
  | singleton h => exact .cons (readComparator_append hmore h) hright
  | @cons cs rest c last others h _ ih =>
    have hrest : ListsComparators (dropSpaces (rest ++ ',' :: ds)) (others ++ right) := by
      rw [dropSpaces_append hmore]
      exact ih
    exact .cons (readComparator_append hmore h) hrest

/-- What stands before the first comma is the first comparator. -/
theorem exists_of_comma (h : ListsComparators (cs ++ ',' :: ds) left) (hcs : ',' ∉ cs) :
    ∃ c right, left = c :: right ∧ ListsComparators (dropSpaces ds) right := by
  have hcomma : isComparatorChar ',' = false := by decide
  generalize htext : cs ++ ',' :: ds = text at h
  cases h with
  | singleton h =>
    obtain ⟨front, rfl, hfront⟩ := passes_of_readComparator h
    have hmem : ',' ∈ front ++ [] := htext ▸ List.mem_append_right _ List.mem_cons_self
    rw [List.append_nil] at hmem
    exact absurd (hfront ',' hmem) (Bool.eq_false_iff.1 hcomma)
  | @cons _ rest c last right h hrest =>
    obtain ⟨front, rfl, hfront⟩ := passes_of_readComparator h
    have hne : ∀ {cs : List Char}, ',' ∉ cs → ∀ d ∈ cs, (d != ',') = true := by
      rintro cs hcs d hd
      apply bne_iff_ne.2
      rintro rfl
      exact hcs hd
    have hfront : ',' ∉ front := fun hmem => Bool.eq_false_iff.1 hcomma (hfront ',' hmem)
    obtain ⟨-, hds⟩ := append_inj_of_stopsAt (hne hcs) (hne hfront) (stopsAt_cons rfl)
      (stopsAt_cons rfl) htext
    obtain ⟨-, rfl⟩ := List.cons.inj hds
    exact ⟨c, right, rfl, hrest⟩

/-- Only operators and spaces stand before the first number. -/
theorem exists_eq (h : ListsComparators cs left) :
    ∃ signs n tail, cs = signs ++ (Nat.toDigits 10 n ++ tail) ∧
    ∀ c ∈ signs, isSignChar c = true := by
  cases h with
  | singleton h => exact exists_eq_of_readComparator h
  | cons h _ => exact exists_eq_of_readComparator h

/-- No wildcard stands at the front of a list of comparators. -/
theorem wildcard?_eq_none (h : ListsComparators cs left) : wildcard? cs = none := by
  obtain ⟨signs, n, tail, rfl, hsigns⟩ := h.exists_eq
  cases signs with
  | nil => exact wildcard?_toDigits n
  | cons c signs =>
    have hall : ∀ c ∈ ['=', '>', '<', '~', '^', ' '], (! isWildcardChar c) = true :=
      List.all_eq_true.1 (by decide)
    have hc := hall c (List.contains_iff_mem.1 (hsigns c List.mem_cons_self))
    by_contra hsome
    obtain ⟨⟨d, rest⟩, hd⟩ := Option.ne_none_iff_exists'.1 hsome
    obtain ⟨hcons, hwild⟩ := wildcard?_eq_some_iff.1 hd
    rw [(List.cons.inj hcons).1, hwild] at hc
    exact nomatch hc

/-- A list of comparators has characters of comparators and commas. -/
theorem forall_mem (h : ListsComparators cs left) :
    ∀ c ∈ cs, isComparatorChar c = true ∨ c = ',' := by
  induction h with
  | singleton h =>
    obtain ⟨front, rfl, hfront⟩ := passes_of_readComparator h
    rw [List.append_nil]
    exact fun c hc => .inl (hfront c hc)
  | @cons cs rest c last others h hrest ih =>
    obtain ⟨front, rfl, hfront⟩ := passes_of_readComparator h
    obtain ⟨spaces, hspaces, hblank⟩ := exists_eq_dropSpaces rest
    refine List.forall_mem_append.2 ⟨fun c hc => .inl (hfront c hc),
      List.forall_mem_cons.2 ⟨.inr rfl, ?_⟩⟩
    rw [hspaces]
    exact List.forall_mem_append.2 ⟨fun c hc => .inl (hblank c hc ▸ by decide), ih⟩

end ListsComparators

/-! ## Requirements -/

namespace Requirement

variable {r s : Requirement} {ds : List Char}

/-- A requirement with comparators is read from a list of them. -/
theorem readChars_eq_ok_iff_of_ne_nil (hne : r.comparators ≠ []) : readChars cs = .ok r ↔
    ListsComparators (dropSpaces cs) r.comparators ∧ r.comparators.length ≤ maxComparators := by
  have hlimit : maxComparators - 1 + 1 = maxComparators := rfl
  unfold readChars
  dsimp only
  cases hwild : wildcard? (dropSpaces cs) with
  | none =>
    dsimp only
    rw [map_eq_ok_iff]
    constructor
    · rintro ⟨comparators, hread, rfl⟩
      rwa [readComparators_eq_ok_iff, hlimit] at hread
    · intro h
      exact ⟨r.comparators, readComparators_eq_ok_iff.2 (hlimit ▸ h), rfl⟩
  | some found =>
    constructor
    · intro h
      dsimp only at h
      split at h
      · cases h
        exact absurd rfl hne
      · exact nomatch h
      · exact nomatch h
    · rintro ⟨h, -⟩
      exact nomatch hwild.symm.trans h.wildcard?_eq_none

/-- A requirement without comparators is read from a lone wildcard. -/
theorem exists_of_readChars_of_nil (h : readChars cs = .ok r) (hnil : r.comparators = []) :
    ∃ c rest, dropSpaces cs = c :: rest ∧ isWildcardChar c = true ∧ dropSpaces rest = [] := by
  unfold readChars at h
  dsimp only at h
  split at h
  · rename_i c rest hwild
    obtain ⟨hcs, hc⟩ := wildcard?_eq_some_iff.1 hwild
    split at h
    · rename_i hrest
      exact ⟨c, rest, hcs, hc, hrest⟩
    · exact nomatch h
    · exact nomatch h
  · obtain ⟨comparators, hread, rfl⟩ := map_eq_ok_iff.1 h
    exact absurd hnil (readComparators_eq_ok_iff.1 hread).1.ne_nil

theorem forall_mem_of_readChars (h : readChars cs = .ok r) :
    ∀ c ∈ cs, isComparatorChar c = true ∨ c = ',' := by
  obtain ⟨spaces, hcs, hspaces⟩ := exists_eq_dropSpaces cs
  have hblank : ∀ {spaces : List Char}, (∀ c ∈ spaces, c = ' ') →
      ∀ c ∈ spaces, isComparatorChar c = true ∨ c = ',' :=
    fun hspaces c hc => .inl (hspaces c hc ▸ by decide)
  rw [hcs]
  refine List.forall_mem_append.2 ⟨hblank hspaces, ?_⟩
  by_cases hne : r.comparators = []
  · obtain ⟨c, rest, hfront, hc, hrest⟩ := exists_of_readChars_of_nil h hne
    obtain ⟨back, hback, hspaces⟩ := exists_eq_dropSpaces rest
    rw [hrest, List.append_nil] at hback
    rw [hfront, hback]
    exact List.forall_mem_cons.2 ⟨.inl (isComparatorChar_of_isWildcardChar hc), hblank hspaces⟩
  · exact ((readChars_eq_ok_iff_of_ne_nil hne).1 h).1.forall_mem

/-- Two requirements with a comma between them are one, with the comparators of both. -/
theorem readChars_append (hr : readChars cs = .ok r) (hs : readChars ds = .ok s)
    (hrne : r.comparators ≠ []) (hsne : s.comparators ≠ [])
    (hfew : r.comparators.length + s.comparators.length ≤ maxComparators) :
    readChars (cs ++ ',' :: ds) = .ok ⟨r.comparators ++ s.comparators⟩ := by
  have hne : r.comparators ++ s.comparators ≠ [] := by simp [hrne]
  obtain ⟨hleft, -⟩ := (readChars_eq_ok_iff_of_ne_nil hrne).1 hr
  obtain ⟨hright, -⟩ := (readChars_eq_ok_iff_of_ne_nil hsne).1 hs
  refine (readChars_eq_ok_iff_of_ne_nil hne).2 ⟨?_, by rw [List.length_append]; exact hfew⟩
  rw [dropSpaces_append (ends_comma ds)]
  exact hleft.append hright

end Requirement

end Depsolve.Semver
