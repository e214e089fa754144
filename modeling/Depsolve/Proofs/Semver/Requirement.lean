import Depsolve.Proofs.Semver.Numbers
import Depsolve.Semver.Requirement

/-!
# Written requirements are read back

The reader gives only requirements within its own bounds (`Requirement.proper_of_readChars`), and
reads each of these back from its text (`Requirement.readChars_toText`). A comparator is read back
whether the text ends behind it or goes on with a comma.
-/

namespace Depsolve.Semver

variable {pos last : Position} {rest : List Char}

/-- The numbers are within bounds and the pre-release identifier is well-formed. -/
def Detail.Proper : Detail → Prop
  | .none => True
  | .minor m => m ≤ maxNumber
  | .full m patch pre => m ≤ maxNumber ∧ patch ≤ maxNumber ∧ IsIdentifier? .pre pre

/-- A comparator that can be read. -/
structure Comparator.Proper (c : Comparator) : Prop where
  major : c.major ≤ maxNumber
  detail : c.detail.Proper
  /-- A wildcard stands for a missing part. -/
  wildcard : c.op = .wildcard → ∀ minor patch pre, c.detail ≠ .full minor patch pre

/-- A requirement that can be read. -/
structure Requirement.Proper (r : Requirement) : Prop where
  few : r.comparators.length ≤ maxComparators
  comparators : ∀ c ∈ r.comparators, c.Proper

/-! ## Comparators -/

/-- The sign of a missing part. -/
def Op.star (op : Op) : List Char :=
  if op = .wildcard then ['.', '*'] else []

/-- What stands behind the major number. -/
def Comparator.tail (c : Comparator) : List Char :=
  match c.detail with
  | .none => c.op.star
  | .minor minor => '.' :: (Nat.toDigits 10 minor ++ c.op.star)
  | .full minor patch pre =>
    '.' :: (Nat.toDigits 10 minor ++
      '.' :: (Nat.toDigits 10 patch ++ (identifierText "-" pre).toList))

theorem Comparator.toList_toText (c : Comparator) :
    c.toText.toList = c.op.sign.toList ++ (Nat.toDigits 10 c.major ++ c.tail) := by
  obtain ⟨op, major, detail⟩ := c
  cases detail with
  | none => by_cases h : op = .wildcard <;> simp [toText, tail, Op.star, h, Nat.toList_repr]
  | minor minor => by_cases h : op = .wildcard <;> simp [toText, tail, Op.star, h, Nat.toList_repr]
  | full minor patch pre => simp [toText, tail, Nat.toList_repr]

/-- A text ends, or goes on with a comma. -/
def Ends (rest : List Char) : Prop :=
  ∀ c ∈ rest.head?, c = ','

theorem ends_nil : Ends [] := fun _ hc => nomatch hc

theorem ends_comma (rest : List Char) : Ends (',' :: rest) := fun _ hc => (Option.some.inj hc).symm

theorem Ends.stopsAt {p : Char → Bool} (h : Ends rest) (hp : p ',' = false) : StopsAt p rest :=
  fun c hc => h c hc ▸ hp

theorem dropSpaces_of_stopsAt (h : StopsAt (· == ' ') rest) : dropSpaces rest = rest :=
  dropWhile_of_stopsAt h

theorem stopsAt_toDigits {p : Char → Bool} (n : Nat) (hp : ∀ c, c.isDigit = true → p c = false) :
    StopsAt p (Nat.toDigits 10 n ++ rest) := by
  intro c hc
  obtain ⟨d, ds, hd⟩ := List.exists_cons_of_ne_nil (Nat.toDigits_ne_nil (n := n) (b := 10))
  rw [hd] at hc
  obtain rfl := Option.some.inj hc
  exact hp d (isDigit_of_mem_toDigits (hd ▸ List.mem_cons_self))

theorem stopsAt_dot {p : Char → Bool} (hp : p '.' = false) : StopsAt p ('.' :: rest) :=
  fun _ hc => Option.some.inj hc ▸ hp

/-- An operator is read from its sign; none is read where no sign stands. -/
theorem readOp_sign (op : Op) (n : Nat) :
    readOp (op.sign.toList ++ (Nat.toDigits 10 n ++ rest)) =
      (if op = .wildcard then none else some op, Nat.toDigits 10 n ++ rest) := by
  obtain ⟨d, ds, hd⟩ := List.exists_cons_of_ne_nil (Nat.toDigits_ne_nil (n := n) (b := 10))
  have hdigit : d.isDigit = true := isDigit_of_mem_toDigits (hd ▸ List.mem_cons_self)
  rw [hd, List.cons_append]
  have hne : ∀ c : Char, c.isDigit = false → d ≠ c := by
    rintro c hc rfl
    exact absurd hdigit (by rw [hc]; exact Bool.false_ne_true)
  have heq := hne '=' (by decide)
  have hgt := hne '>' (by decide)
  have hlt := hne '<' (by decide)
  have htilde := hne '~' (by decide)
  have hcaret := hne '^' (by decide)
  cases op <;> simp [Op.sign, readOp, heq, hgt, hlt, htilde, hcaret]

theorem wildcard?_toDigits (n : Nat) : wildcard? (Nat.toDigits 10 n ++ rest) = none := by
  obtain ⟨d, ds, hd⟩ := List.exists_cons_of_ne_nil (Nat.toDigits_ne_nil (n := n) (b := 10))
  have hdigit : d.isDigit = true := isDigit_of_mem_toDigits (hd ▸ List.mem_cons_self)
  rw [hd, List.cons_append]
  refine if_neg ?_
  rintro (rfl | rfl | rfl) <;> exact absurd hdigit (by decide)

theorem readPart_number {n : Nat} (h : n ≤ maxNumber) (hrest : StopsAt Char.isDigit rest) :
    readPart pos last false ('.' :: (Nat.toDigits 10 n ++ rest)) = .ok (.number n, pos, rest) := by
  simp [readPart, wildcard?_toDigits, readNumber_toDigits h hrest, bind, Except.bind,
    pure, Except.pure]

theorem readPart_absent {afterStar : Bool} (hrest : StopsAt (· == '.') rest) :
    readPart pos last afterStar rest = .ok (.absent, last, rest) := by
  unfold readPart
  split
  · exact absurd (hrest '.' rfl) (by decide)
  · rfl

theorem readPart_star : readPart pos last false ('.' :: '*' :: rest) = .ok (.star, pos, rest) :=
  rfl

theorem Op.stopsAt_star {p : Char → Bool} (op : Op) (hrest : StopsAt p rest)
    (hdot : p '.' = false) : StopsAt p (op.star ++ rest) := by
  unfold star
  split
  · exact stopsAt_dot hdot
  · exact hrest

/-- What may stand behind a comparator that is read up to there. -/
structure Comparator.EndsBefore (c : Comparator) (rest : List Char) : Prop where
  digit : StopsAt Char.isDigit rest
  dot : StopsAt (· == '.') rest
  space : StopsAt (· == ' ') rest
  /-- Identifiers are looked for behind a patch number only. -/
  identifier : ∀ minor patch pre, c.detail = .full minor patch pre →
    StopsAt isIdentifierChar rest ∧ StopsAt (· == '+') rest

theorem Ends.endsBefore (h : Ends rest) (c : Comparator) : c.EndsBefore rest :=
  ⟨h.stopsAt (by decide), h.stopsAt (by decide), h.stopsAt (by decide),
    fun _ _ _ _ => ⟨h.stopsAt (by decide), h.stopsAt (by decide)⟩⟩

theorem dropSpaces_toDigits (n : Nat) :
    dropSpaces (Nat.toDigits 10 n ++ rest) = Nat.toDigits 10 n ++ rest :=
  dropSpaces_of_stopsAt (stopsAt_toDigits n fun d hd => beq_eq_false_iff_ne.2 (by
    rintro rfl
    exact absurd hd (by decide)))

/-- An operator is the one that is written, or none is written and it goes without a sign. -/
def Op.IsWritten (op : Op) (op? : Option Op) : Prop :=
  op? = none ∧ (op = .caret ∨ op = .wildcard) ∨ op? = some op ∧ op ≠ .wildcard

theorem Op.IsWritten.getD_eq {op : Op} {op? : Option Op} (h : op.IsWritten op?)
    (hne : op ≠ .wildcard) : op?.getD .caret = op := by
  rcases h with ⟨rfl, hop | hop⟩ | ⟨rfl, -⟩
  · exact hop.symm
  · exact absurd hop hne
  · rfl

theorem Op.IsWritten.eq_none {op? : Option Op} (h : Op.wildcard.IsWritten op?) : op? = none := by
  rcases h with ⟨hnone, -⟩ | ⟨-, hne⟩
  · exact hnone
  · exact absurd rfl hne

section ReadComparator

variable {cs : List Char} {op : Op} {op? : Option Op} {major minor patch : Nat}
  {pre build : List String}

/-- A comparator with a major number only is read. -/
theorem readComparator_none (hop : readOp cs = (op?, Nat.toDigits 10 major ++ (op.star ++ rest)))
    (hsign : op.IsWritten op?) (hmajor : major ≤ maxNumber)
    (hrest : Comparator.EndsBefore ⟨op, major, .none⟩ rest) :
    ∃ last, readComparator cs = .ok (⟨op, major, .none⟩, last, rest) := by
  have hspaces : dropSpaces rest = rest := dropSpaces_of_stopsAt hrest.space
  unfold readComparator
  rw [hop]
  dsimp only
  rw [dropSpaces_toDigits, readNumber_toDigits hmajor (op.stopsAt_star hrest.digit (by decide))]
  by_cases hwildcard : op = .wildcard
  · subst hwildcard
    refine ⟨.minor, ?_⟩
    simp [Op.star, hsign.eq_none, bind, Except.bind, readPart_star, readPart_absent hrest.dot,
      hspaces, pure, Except.pure]
  · refine ⟨.major, ?_⟩
    simp [Op.star, hwildcard, hsign.getD_eq hwildcard, bind, Except.bind,
      readPart_absent hrest.dot, hspaces, pure, Except.pure]

/-- A comparator with two numbers is read. -/
theorem readComparator_minor
    (hop : readOp cs =
      (op?, Nat.toDigits 10 major ++ '.' :: (Nat.toDigits 10 minor ++ (op.star ++ rest))))
    (hsign : op.IsWritten op?) (hmajor : major ≤ maxNumber) (hminor : minor ≤ maxNumber)
    (hrest : Comparator.EndsBefore ⟨op, major, .minor minor⟩ rest) :
    ∃ last, readComparator cs = .ok (⟨op, major, .minor minor⟩, last, rest) := by
  have hspaces : dropSpaces rest = rest := dropSpaces_of_stopsAt hrest.space
  have hread : readPart .minor .major false ('.' :: (Nat.toDigits 10 minor ++ (op.star ++ rest))) =
      .ok (.number minor, .minor, op.star ++ rest) :=
    readPart_number hminor (op.stopsAt_star hrest.digit (by decide))
  unfold readComparator
  rw [hop]
  dsimp only
  rw [dropSpaces_toDigits, readNumber_toDigits hmajor (stopsAt_dot (by decide))]
  by_cases hwildcard : op = .wildcard
  · subst hwildcard
    refine ⟨.patch, ?_⟩
    simp only [Op.star, if_pos, List.cons_append, List.nil_append] at hread
    simp [Op.star, hsign.eq_none, bind, Except.bind, hread, readPart_star, hspaces,
      pure, Except.pure]
  · refine ⟨.minor, ?_⟩
    simp only [Op.star, if_neg hwildcard, List.nil_append] at hread
    simp [Op.star, hwildcard, hsign.getD_eq hwildcard, bind, Except.bind, hread,
      readPart_absent hrest.dot, hspaces, pure, Except.pure]

/-- A comparator with three numbers is read with its pre-release identifier; a build
identifier is dropped. -/
theorem readComparator_full
    (hop : readOp cs = (op?, Nat.toDigits 10 major ++ '.' :: (Nat.toDigits 10 minor ++ '.' ::
      (Nat.toDigits 10 patch ++
        ((identifierText "-" pre).toList ++ ((identifierText "+" build).toList ++ rest))))))
    (hsign : op.IsWritten op?) (hproper : Comparator.Proper ⟨op, major, .full minor patch pre⟩)
    (hbuild : IsIdentifier? .build build)
    (hrest : Comparator.EndsBefore ⟨op, major, .full minor patch pre⟩ rest) :
    ∃ last, readComparator cs = .ok (⟨op, major, .full minor patch pre⟩, last, rest) := by
  have hspaces : dropSpaces rest = rest := dropSpaces_of_stopsAt hrest.space
  have hplus : ∀ {p : Char → Bool}, p '+' = false → StopsAt p rest →
      StopsAt p ((identifierText "+" build).toList ++ rest) := stopsAt_singleton '+'
  have hwildcard : op ≠ .wildcard := fun h => hproper.wildcard h minor patch pre rfl
  obtain ⟨hm, hp, hpre⟩ := hproper.detail
  obtain ⟨hchar, hsignless⟩ := hrest.identifier minor patch pre rfl
  have hminor : readPart .minor .major false
      ('.' :: (Nat.toDigits 10 minor ++ ('.' :: (Nat.toDigits 10 patch ++
      ((identifierText "-" pre).toList ++ ((identifierText "+" build).toList ++ rest)))))) =
      .ok (.number minor, .minor, _) :=
    readPart_number hm (stopsAt_dot (by decide))
  have hpatch : readPart .patch .minor false ('.' :: (Nat.toDigits 10 patch ++
      ((identifierText "-" pre).toList ++ ((identifierText "+" build).toList ++ rest)))) =
      .ok (.number patch, .patch, _) :=
    readPart_number hp (stopsAt_identifierText (by decide) (hplus (by decide) hrest.digit))
  obtain ⟨last, hsigned⟩ := readSigned_identifierText .patch hpre (hplus (by decide) hchar)
  obtain ⟨last', hdropped⟩ := readSigned_singleton '+' last hbuild hchar hsignless
  have hdropped : readSigned '+' .build last ((identifierText "+" build).toList ++ rest) =
    .ok (build, last', rest) := hdropped
  unfold readComparator
  rw [hop]
  dsimp only
  rw [dropSpaces_toDigits, readNumber_toDigits hproper.major (stopsAt_dot (by decide))]
  refine ⟨last', ?_⟩
  simp [hsign.getD_eq hwildcard, bind, Except.bind, hminor, hpatch, hsigned, hdropped, hspaces,
    pure, Except.pure]

/-- A comparator is read from its operator, if one is written, its numbers and its identifiers. -/
theorem readComparator_of_readOp {c : Comparator}
    (hop : readOp cs =
      (op?, Nat.toDigits 10 c.major ++ (c.tail ++ ((identifierText "+" build).toList ++ rest))))
    (hsign : c.op.IsWritten op?) (h : c.Proper) (hbuild : IsIdentifier? .build build)
    (hshort : (∀ minor patch pre, c.detail ≠ .full minor patch pre) → build = [])
    (hrest : c.EndsBefore rest) : ∃ last, readComparator cs = .ok (c, last, rest) := by
  obtain ⟨op, major, detail⟩ := c
  cases detail with
  | none =>
    obtain rfl := hshort fun _ _ _ => Detail.noConfusion
    exact readComparator_none hop hsign h.major hrest
  | minor minor =>
    obtain rfl := hshort fun _ _ _ => Detail.noConfusion
    refine readComparator_minor ?_ hsign h.major h.detail hrest
    rw [hop]
    simp [Comparator.tail, identifierText]
  | full minor patch pre =>
    refine readComparator_full ?_ hsign h hbuild hrest
    rw [hop]
    simp [Comparator.tail]

end ReadComparator

/-- A comparator is read back from its text. -/
theorem readComparator_toText {c : Comparator} (h : c.Proper) (hrest : Ends rest) :
    ∃ last, readComparator (c.toText.toList ++ rest) = .ok (c, last, rest) := by
  have hop : readOp (c.toText.toList ++ rest) = (if c.op = .wildcard then none else some c.op,
      Nat.toDigits 10 c.major ++ (c.tail ++ ((identifierText "+" []).toList ++ rest))) := by
    rw [c.toList_toText, List.append_assoc, List.append_assoc, readOp_sign]
    rfl
  refine readComparator_of_readOp hop ?_ h (.inl rfl) (fun _ => rfl) (hrest.endsBefore c)
  by_cases hwildcard : c.op = .wildcard
  · exact .inl ⟨if_pos hwildcard, .inr hwildcard⟩
  · exact .inr ⟨if_neg hwildcard, hwildcard⟩

theorem getD_readOp_ne_wildcard (cs : List Char) : (readOp cs).1.getD .caret ≠ .wildcard := by
  unfold readOp
  split <;> exact Op.noConfusion

theorem le_of_readPart {afterStar : Bool} {cs : List Char} {n : Nat} {last' : Position}
    (h : readPart pos last afterStar cs = .ok (.number n, last', rest)) : n ≤ maxNumber := by
  unfold readPart at h
  split at h
  · split at h
    · cases h
    · split at h
      · cases h
      · obtain ⟨⟨n', rest'⟩, hnumber, h⟩ := bind_eq_ok_iff.1 h
        cases h
        exact le_of_readNumber hnumber
  · cases h

/-- The characters of a comparator's text. -/
theorem Comparator.forall_mem_toText {P : Char → Prop} {c : Comparator} (h : c.Proper)
    (hsign : ∀ d ∈ ['=', '>', '<', '~', '^', '.', '*'], P d)
    (hsegment : ∀ d, isSegmentChar d = true → P d) : ∀ d ∈ c.toText.toList, P d := by
  have hdigits : ∀ n, ∀ d ∈ Nat.toDigits 10 n, P d := fun n d hd => by
    have hdigit := isDigit_of_mem_toDigits hd
    exact hsegment d (by simp [isSegmentChar, Char.isAlphanum, hdigit])
  have hdot := hsign '.' (by decide)
  have hstar : ∀ d ∈ c.op.star, P d := by
    unfold Op.star
    split
    · exact List.forall_mem_cons.2 ⟨hdot, List.forall_mem_singleton.2 (hsign '*' (by decide))⟩
    · exact fun d hd => nomatch hd
  have hpre : ∀ {pre}, IsIdentifier? .pre pre → ∀ d ∈ (identifierText "-" pre).toList, P d :=
    fun hpre =>
    forall_mem_identifierText '-' hpre (hsegment '-' rfl) hdot hsegment
  have htail : ∀ d ∈ c.tail, P d := by
    have hdetail := h.detail
    unfold tail
    split
    · exact hstar
    · rename_i m _
      exact List.forall_mem_cons.2 ⟨hdot, List.forall_mem_append.2 ⟨hdigits m, hstar⟩⟩
    · rename_i m patch pre hfull
      rw [hfull] at hdetail
      exact List.forall_mem_cons.2 ⟨hdot,
        List.forall_mem_append.2 ⟨hdigits m, List.forall_mem_cons.2
        ⟨hdot, List.forall_mem_append.2 ⟨hdigits patch, hpre hdetail.2.2⟩⟩⟩⟩
  have hop : c.op.sign.toList.all ['=', '>', '<', '~', '^', '.', '*'].contains = true := by
    cases c.op <;> decide
  rw [c.toList_toText]
  refine List.forall_mem_append.2 ⟨fun d hd => ?_, List.forall_mem_append.2 ⟨hdigits _, htail⟩⟩
  exact hsign d (List.contains_iff_mem.1 (List.all_eq_true.1 hop d hd))

/-- Only comparators that can be read are read. -/
theorem proper_of_readComparator {cs : List Char} {c : Comparator}
    (h : readComparator cs = .ok (c, last, rest)) : c.Proper := by
  unfold readComparator at h
  dsimp only at h
  obtain ⟨⟨major, rest₁⟩, hmajor, h⟩ := bind_eq_ok_iff.1 h
  obtain ⟨⟨minor, last₁, rest₂⟩, hminor, h⟩ := bind_eq_ok_iff.1 h
  obtain ⟨⟨patch, last₂, rest₃⟩, hpatch, h⟩ := bind_eq_ok_iff.1 h
  dsimp only at h
  have hle := le_of_readNumber hmajor
  split at h
  · obtain ⟨⟨pre, last₃, rest₄⟩, hpre, h⟩ := bind_eq_ok_iff.1 h
    obtain ⟨⟨build, last₄, rest₅⟩, -, h⟩ := bind_eq_ok_iff.1 h
    obtain ⟨rfl, -⟩ := Prod.mk.inj (Except.ok.inj h)
    exact ⟨hle, ⟨le_of_readPart hminor, le_of_readPart hpatch, isIdentifier?_of_readSigned hpre⟩,
      fun hop => absurd hop (getD_readOp_ne_wildcard cs)⟩
  · obtain ⟨rfl, -⟩ := Prod.mk.inj (Except.ok.inj h)
    exact ⟨hle, le_of_readPart hminor, fun _ _ _ _ => Detail.noConfusion⟩
  · obtain ⟨rfl, -⟩ := Prod.mk.inj (Except.ok.inj h)
    exact ⟨hle, le_of_readPart hminor, fun _ _ _ _ => Detail.noConfusion⟩
  · obtain ⟨rfl, -⟩ := Prod.mk.inj (Except.ok.inj h)
    exact ⟨hle, trivial, fun _ _ _ _ => Detail.noConfusion⟩
  · obtain ⟨rfl, -⟩ := Prod.mk.inj (Except.ok.inj h)
    exact ⟨hle, trivial, fun _ _ _ _ => Detail.noConfusion⟩

/-! ## Requirements -/

/-- The text of a comparator starts with an operator or a digit. -/
theorem Comparator.stopsAt_toText {p : Char → Bool} (c : Comparator)
    (hsign : ∀ d ∈ ['=', '>', '<', '~', '^'], p d = false)
    (hdigit : ∀ d, d.isDigit = true → p d = false) : StopsAt p (c.toText.toList ++ rest) := by
  rw [c.toList_toText, List.append_assoc, List.append_assoc]
  intro d hd
  cases hop : c.op <;> rw [hop] at hd
  case wildcard => exact stopsAt_toDigits c.major hdigit d hd
  all_goals exact hsign d (Option.some.inj hd ▸ by decide)

theorem Comparator.dropSpaces_toText (c : Comparator) :
    dropSpaces (c.toText.toList ++ rest) = c.toText.toList ++ rest :=
  dropSpaces_of_stopsAt (c.stopsAt_toText (by simp) fun d hd => beq_eq_false_iff_ne.2 (by
    rintro rfl
    exact absurd hd (by decide)))

theorem Comparator.wildcard?_toText (c : Comparator) :
    wildcard? (c.toText.toList ++ rest) = none := by
  have hstops : StopsAt (fun d => d = '*' ∨ d = 'x' ∨ d = 'X') (c.toText.toList ++ rest) :=
    c.stopsAt_toText (by simp) fun d hd => decide_eq_false (by
      rintro (rfl | rfl | rfl) <;> exact absurd hd (by decide))
  unfold wildcard?
  split
  · rename_i d more hmore
    exact if_neg (of_decide_eq_false (hstops d (by rw [hmore]; rfl)))
  · rfl

/-- The texts of comparators with commas between them. -/
def commaSeparated (cs : List Comparator) : List Char :=
  [',', ' '].intercalate (cs.map fun c => c.toText.toList)

theorem commaSeparated_cons_cons (c d : Comparator) (cs : List Comparator) :
    commaSeparated (c :: d :: cs) = c.toText.toList ++ ',' :: ' ' :: commaSeparated (d :: cs) := by
  simp [commaSeparated, List.intercalate_cons_cons]

theorem exists_commaSeparated_cons (c : Comparator) (cs : List Comparator) :
    ∃ rest, commaSeparated (c :: cs) = c.toText.toList ++ rest :=
  exists_intercalate_cons _ _ _

/-- A text lists comparators: each is read up to a comma, and the last one up to the end. -/
inductive ListsComparators : List Char → List Comparator → Prop
  | singleton {cs : List Char} {c : Comparator} {last : Position}
      (h : readComparator cs = .ok (c, last, [])) :
      ListsComparators cs [c]
  | cons {cs rest : List Char} {c : Comparator} {last : Position} {others : List Comparator}
      (h : readComparator cs = .ok (c, last, ',' :: rest))
      (hrest : ListsComparators (dropSpaces rest) others) :
      ListsComparators cs (c :: others)

namespace ListsComparators

variable {cs : List Char} {comparators : List Comparator}

theorem ne_nil (h : ListsComparators cs comparators) : comparators ≠ [] := by
  cases h <;> exact List.cons_ne_nil _ _

theorem proper (h : ListsComparators cs comparators) : ∀ c ∈ comparators, c.Proper := by
  induction h with
  | singleton h => exact List.forall_mem_singleton.2 (proper_of_readComparator h)
  | cons h _ ih => exact List.forall_mem_cons.2 ⟨proper_of_readComparator h, ih⟩

end ListsComparators

/-- Comparators are read just from a list of them that is not too long. -/
theorem readComparators_eq_ok_iff {limit : Nat} {cs : List Char} {comparators : List Comparator} :
    readComparators limit cs = .ok comparators ↔
      ListsComparators cs comparators ∧ comparators.length ≤ limit + 1 := by
  constructor
  · intro h
    fun_induction readComparators limit cs generalizing comparators with
    | case1 => cases h
    | case2 => cases h
    | case3 limit cs c last hread =>
      cases h
      exact ⟨.singleton hread, Nat.le_add_left _ _⟩
    | case4 => cases h
    | case5 cs c last rest limit hread ih =>
      obtain ⟨others, hothers, rfl⟩ := map_eq_ok_iff.1 h
      obtain ⟨hlists, hlength⟩ := ih hothers
      exact ⟨.cons hread hlists, Nat.succ_le_succ hlength⟩
    | case6 => cases h
  · rintro ⟨h, hlength⟩
    induction h generalizing limit with
    | singleton h =>
      unfold readComparators
      rw [h]
    | @cons cs rest c last others h hrest ih =>
      obtain ⟨limit, rfl⟩ : ∃ n, limit = n + 1 := ⟨limit - 1, by
        have hpos := List.length_pos_iff.2 hrest.ne_nil
        rw [List.length_cons] at hlength
        omega⟩
      unfold readComparators
      rw [h]
      dsimp only
      rw [if_pos rfl, ih (Nat.le_of_succ_le_succ hlength)]
      rfl

/-- Comparators are listed by their texts with commas between them. -/
theorem listsComparators_commaSeparated {c : Comparator} {cs : List Comparator}
    (h : ∀ d ∈ c :: cs, d.Proper) : ListsComparators (commaSeparated (c :: cs)) (c :: cs) := by
  induction cs generalizing c with
  | nil =>
    obtain ⟨last, hread⟩ := readComparator_toText (h c List.mem_cons_self) ends_nil
    have hone : commaSeparated [c] = c.toText.toList ++ [] := by
      simp [commaSeparated, List.intercalate_singleton]
    rw [← hone] at hread
    exact .singleton hread
  | cons next cs ih =>
    obtain ⟨last, hread⟩ := readComparator_toText (h c List.mem_cons_self)
      (ends_comma (' ' :: commaSeparated (next :: cs)))
    rw [← commaSeparated_cons_cons] at hread
    -- what follows the comma and the space starts with a comparator
    have hspaces : dropSpaces (' ' :: commaSeparated (next :: cs)) =
        commaSeparated (next :: cs) := by
      obtain ⟨more, hmore⟩ := exists_commaSeparated_cons next cs
      rw [hmore]
      exact next.dropSpaces_toText
    refine .cons hread ?_
    rw [hspaces]
    exact ih fun d hd => h d (List.mem_cons_of_mem _ hd)

theorem Requirement.toList_toText (r : Requirement) :
    r.toText.toList = if r.comparators.isEmpty then ['*'] else commaSeparated r.comparators := by
  unfold toText
  split
  · rfl
  · rw [String.toList_intercalate, List.map_map]
    rfl

/-- A requirement is read back from its text. -/
theorem Requirement.readChars_toText {r : Requirement} (h : r.Proper) :
    readChars r.toText.toList = .ok r := by
  rw [r.toList_toText]
  obtain ⟨cs⟩ := r
  cases cs with
  | nil => rfl
  | cons c cs =>
    obtain ⟨rest, hrest⟩ := exists_commaSeparated_cons c cs
    have hread : readComparators (maxComparators - 1) (commaSeparated (c :: cs)) = .ok (c :: cs) :=
      readComparators_eq_ok_iff.2 ⟨listsComparators_commaSeparated h.comparators, h.few⟩
    have hwild : wildcard? (commaSeparated (c :: cs)) = none := by
      rw [hrest]
      exact c.wildcard?_toText
    have hspaces : dropSpaces (commaSeparated (c :: cs)) = commaSeparated (c :: cs) := by
      rw [hrest]
      exact c.dropSpaces_toText
    unfold readChars
    simp [hspaces, hwild, hread, Except.map]

/-- Only requirements that can be read are read. -/
theorem Requirement.proper_of_readChars {chars : List Char} {r : Requirement}
    (h : readChars chars = .ok r) : r.Proper := by
  unfold readChars at h
  dsimp only at h
  split at h
  · split at h <;> cases h
    exact ⟨Nat.zero_le _, fun _ hc => nomatch hc⟩
  · obtain ⟨cs, hcs, rfl⟩ := map_eq_ok_iff.1 h
    obtain ⟨hlists, hlength⟩ := readComparators_eq_ok_iff.1 hcs
    exact ⟨hlength, hlists.proper⟩

end Depsolve.Semver
