import Depsolve.Proofs.Except
import Depsolve.Semver.Reader

/-!
# Written numbers and identifiers are read back

A reader takes as many characters as may belong to what it reads. What was written is therefore read
back, whatever follows, if that starts with no character of the same kind (`readNumber_toDigits`,
`readIdentifier_intercalate`). Conversely only numbers within bounds and well-formed identifiers are
read (`proper_of_readLenient`).
-/

namespace Depsolve.Semver

variable {pos last : Position} {n : Nat} {cs rest : List Char} {p : Char → Bool}
  {segments : List String}

/-- No character of a kind stands at the front of a text. -/
def StopsAt (p : Char → Bool) (cs : List Char) : Prop :=
  ∀ c ∈ cs.head?, p c = false

theorem takeWhile_of_stopsAt (hrest : StopsAt p rest) : rest.takeWhile p = [] := by
  cases rest with
  | nil => rfl
  | cons c rest => rw [List.takeWhile_cons, hrest c rfl]; rfl

theorem dropWhile_of_stopsAt (hrest : StopsAt p rest) : rest.dropWhile p = rest := by
  cases rest with
  | nil => rfl
  | cons c rest => rw [List.dropWhile_cons, hrest c rfl]; rfl

theorem takeWhile_append (hcs : ∀ c ∈ cs, p c = true) (hrest : StopsAt p rest) :
    (cs ++ rest).takeWhile p = cs := by
  rw [List.takeWhile_append_of_pos hcs, takeWhile_of_stopsAt hrest, List.append_nil]

theorem dropWhile_append (hcs : ∀ c ∈ cs, p c = true) (hrest : StopsAt p rest) :
    (cs ++ rest).dropWhile p = rest := by
  rw [List.dropWhile_append_of_pos hcs, dropWhile_of_stopsAt hrest]

/-- A stretch at the front does not go on into a text that starts with another character. -/
theorem takeWhile_append_of_stopsAt (cs : List Char) (hrest : StopsAt p rest) :
    (cs ++ rest).takeWhile p = cs.takeWhile p := by
  rw [List.takeWhile_append, takeWhile_of_stopsAt hrest, List.append_nil]
  split
  · rename_i hlength
    exact ((List.takeWhile_prefix p).eq_of_length hlength).symm
  · rfl

theorem dropWhile_append_of_stopsAt (cs : List Char) (hrest : StopsAt p rest) :
    (cs ++ rest).dropWhile p = cs.dropWhile p ++ rest := by
  rw [List.dropWhile_append, dropWhile_of_stopsAt hrest]
  split
  · rename_i hnil
    rw [List.isEmpty_iff.1 hnil, List.nil_append]
  · rfl

/-! ## Numbers -/

theorem isDigit_of_mem_toDigits {c : Char} (h : c ∈ Nat.toDigits 10 n) : c.isDigit = true :=
  Nat.isDigit_of_mem_toDigits (by decide) (by decide) h

theorem ne_of_isDigit {c d : Char} (hd : d.isDigit = true) (hc : c.isDigit = false) : d ≠ c := by
  rintro rfl
  exact absurd (hd.symm.trans hc) Bool.true_eq_false.mp

/-- Numbers are written without leading zeros. -/
theorem toDigits_ne_zero_cons {d : Char} {ds : List Char} : Nat.toDigits 10 n ≠ '0' :: d :: ds := by
  induction n using Nat.strongRecOn generalizing d ds with
  | _ n ih =>
    intro h
    rw [Nat.toDigits_eq_if (by decide)] at h
    split at h
    · exact nomatch (List.cons.inj h).2
    · rename_i hn
      obtain ⟨e, es, hes⟩ :=
        List.exists_cons_of_ne_nil (Nat.toDigits_ne_nil (n := n / 10) (b := 10))
      rw [hes, List.cons_append] at h
      obtain ⟨rfl, h⟩ := List.cons.inj h
      cases es with
      | nil =>
        -- the number before the last digit would be zero
        have hzero := Nat.ofDigitChars_toDigits (n := n / 10) (b := 10) (by decide) (by decide)
        rw [hes] at hzero
        have : n / 10 = 0 := hzero.symm
        omega
      | cons e es => exact ih (n / 10) (by omega) hes

theorem readNumber_toDigits (h : n ≤ maxNumber) (hrest : StopsAt Char.isDigit rest) :
    readNumber pos (Nat.toDigits 10 n ++ rest) = .ok (n, rest) := by
  have hdigits : ∀ c ∈ Nat.toDigits 10 n, c.isDigit = true := fun c => isDigit_of_mem_toDigits
  unfold readNumber
  rw [takeWhile_append hdigits hrest, dropWhile_append hdigits hrest]
  split
  · rename_i hnil
    exact absurd hnil Nat.toDigits_ne_nil
  · rename_i hzero
    exact absurd hzero toDigits_ne_zero_cons
  · rw [Nat.ofDigitChars_toDigits (by decide) (by decide)]
    exact if_pos h

theorem le_of_readNumber (h : readNumber pos cs = .ok (n, rest)) : n ≤ maxNumber := by
  unfold readNumber at h
  dsimp only at h
  split at h
  · split at h <;> exact nomatch h
  · exact nomatch h
  · split at h
    · rename_i hle
      obtain ⟨rfl, -⟩ := Prod.mk.inj (Except.ok.inj h)
      exact hle
    · exact nomatch h

/-! ## Identifiers -/

/-- Segments of an identifier as they can be read: at least one, and each well-formed. -/
structure IsIdentifier (pos : Position) (segments : List String) : Prop where
  ne_nil : segments ≠ []
  checked : ∀ s ∈ segments, checkSegment pos s.toList = .ok ()
  chars : ∀ s ∈ segments, ∀ c ∈ s.toList, isSegmentChar c = true

/-- The characters of identifiers: those of segments, and the dot. -/
def isIdentifierChar (c : Char) : Bool :=
  isSegmentChar c || c == '.'

theorem mem_intercalate {parts : List (List Char)} {between : List Char} {c : Char}
    (h : c ∈ between.intercalate parts) : c ∈ between ∨ ∃ part ∈ parts, c ∈ part := by
  induction parts with
  | nil => exact absurd h List.not_mem_nil
  | cons part parts ih =>
    cases parts with
    | nil =>
      rw [List.intercalate_singleton] at h
      exact .inr ⟨part, List.mem_cons_self, h⟩
    | cons next parts =>
      rw [List.intercalate_cons_cons, List.mem_append, List.mem_append] at h
      rcases h with (h | h) | h
      · exact .inr ⟨part, List.mem_cons_self, h⟩
      · exact .inl h
      · exact (ih h).imp_right fun ⟨part, hpart, hc⟩ => ⟨part, List.mem_cons_of_mem _ hpart, hc⟩

theorem exists_intercalate_cons (between part : List Char) (parts : List (List Char)) :
    ∃ rest, between.intercalate (part :: parts) = part ++ rest := by
  cases parts with
  | nil => exact ⟨[], by rw [List.intercalate_singleton, List.append_nil]⟩
  | cons next parts => exact ⟨_, by rw [List.intercalate_cons_cons, List.append_assoc]⟩

theorem mem_of_mem_splitOnP {part : List Char} {c : Char} (hpart : part ∈ cs.splitOnP p)
    (hc : c ∈ part) : c ∈ cs ∧ p c = false := by
  induction cs generalizing part with
  | nil =>
    rw [List.splitOnP_nil, List.mem_singleton] at hpart
    exact absurd (hpart ▸ hc) List.not_mem_nil
  | cons d cs ih =>
    rw [List.splitOnP_cons_eq_if_modifyHead] at hpart
    split at hpart
    · rcases List.mem_cons.1 hpart with rfl | hpart
      · exact absurd hc List.not_mem_nil
      · exact (ih hpart hc).imp_left (List.mem_cons_of_mem _)
    · rename_i hd
      obtain ⟨first, others, hsplit⟩ := List.exists_cons_of_ne_nil (List.splitOnP_ne_nil p cs)
      rw [hsplit, List.modifyHead_cons] at hpart
      rcases List.mem_cons.1 hpart with rfl | hpart
      · rcases List.mem_cons.1 hc with rfl | hc
        · exact ⟨List.mem_cons_self, Bool.eq_false_iff.2 hd⟩
        · exact (ih (hsplit ▸ List.mem_cons_self) hc).imp_left (List.mem_cons_of_mem _)
      · exact (ih (hsplit ▸ List.mem_cons_of_mem _ hpart) hc).imp_left (List.mem_cons_of_mem _)

theorem readIdentifier_intercalate (h : IsIdentifier pos segments)
    (hrest : StopsAt isIdentifierChar rest) :
    readIdentifier pos (['.'].intercalate (segments.map String.toList) ++ rest) =
      .ok (segments, rest) := by
  have hparts : ∀ c ∈ ['.'].intercalate (segments.map String.toList),
      isIdentifierChar c = true := by
    intro c hc
    rcases mem_intercalate hc with hc | ⟨part, hpart, hc⟩
    · obtain rfl := List.mem_singleton.1 hc
      rfl
    · obtain ⟨s, hs, rfl⟩ := List.mem_map.1 hpart
      exact Bool.or_eq_true_iff.2 (.inl (h.chars s hs c hc))
  have hsplit : (['.'].intercalate (segments.map String.toList)).splitOnP (· == '.') =
      segments.map String.toList := by
    refine List.splitOn_intercalate '.' (fun part hpart hdot => ?_) (by simpa using h.ne_nil)
    obtain ⟨s, hs, rfl⟩ := List.mem_map.1 hpart
    exact absurd (h.chars s hs '.' hdot) (by decide)
  have hchecked : (segments.map String.toList).forM (checkSegment pos) = .ok () :=
    forM_eq_ok_iff.2 fun part hpart => by
      obtain ⟨s, hs, rfl⟩ := List.mem_map.1 hpart
      exact h.checked s hs
  have htake := takeWhile_append hparts hrest
  have hdrop := dropWhile_append hparts hrest
  unfold isIdentifierChar at htake hdrop
  unfold readIdentifier
  dsimp only
  rw [htake, hdrop, hsplit, hchecked, List.map_map]
  simp [bind, Except.bind, pure, Except.pure, Function.comp_def]

theorem isIdentifier_of_readIdentifier (h : readIdentifier pos cs = .ok (segments, rest)) :
    IsIdentifier pos segments := by
  unfold readIdentifier at h
  dsimp only at h
  obtain ⟨⟨⟩, hchecked, h⟩ := bind_eq_ok_iff.1 h
  obtain ⟨rfl, -⟩ := Prod.mk.inj (Except.ok.inj h)
  refine ⟨by simp, fun s hs => ?_, fun s hs c hc => ?_⟩ <;> obtain ⟨part, hpart, rfl⟩ :=
    List.mem_map.1 hs
  · rw [String.toList_ofList]
    exact forM_eq_ok_iff.1 hchecked part hpart
  · rw [String.toList_ofList] at hc
    obtain ⟨hmem, hdot⟩ := mem_of_mem_splitOnP hpart hc
    have hchar := List.all_eq_true.1 List.all_takeWhile c hmem
    rw [hdot, Bool.or_false] at hchar
    exact hchar

/-- An identifier that may be absent. -/
def IsIdentifier? (pos : Position) (segments : List String) : Prop :=
  segments = [] ∨ IsIdentifier pos segments

theorem toList_identifierText (sign : String) : (identifierText sign segments).toList =
    if segments.isEmpty then [] else sign.toList ++ ['.'].intercalate
      (segments.map String.toList) := by
  unfold identifierText
  split
  · rfl
  · rw [String.toList_append, String.toList_intercalate]
    rfl

theorem stopsAt_singleton (sign : Char) (hp : p sign = false) (hrest : StopsAt p rest) :
    StopsAt p ((identifierText (String.singleton sign) segments).toList ++ rest) := by
  rw [toList_identifierText, String.toList_singleton]
  split
  · exact hrest
  · exact fun c hc => Option.some.inj hc ▸ hp

theorem stopsAt_identifierText (hp : p '-' = false) (hrest : StopsAt p rest) :
    StopsAt p ((identifierText "-" segments).toList ++ rest) :=
  stopsAt_singleton '-' hp hrest

theorem forall_mem_identifierText {P : Char → Prop} (sign : Char) (h : IsIdentifier? pos segments)
    (hsign : P sign) (hdot : P '.') (hsegment : ∀ c, isSegmentChar c = true → P c) :
    ∀ c ∈ (identifierText (String.singleton sign) segments).toList, P c := by
  intro c hc
  rw [toList_identifierText, String.toList_singleton] at hc
  rcases h with rfl | h
  · exact nomatch hc
  · rw [if_neg (by simpa using h.ne_nil)] at hc
    rcases List.mem_append.1 hc with hc | hc
    · obtain rfl := List.mem_singleton.1 hc
      exact hsign
    · rcases mem_intercalate hc with hc | ⟨part, hpart, hc⟩
      · obtain rfl := List.mem_singleton.1 hc
        exact hdot
      · obtain ⟨s, hs, rfl⟩ := List.mem_map.1 hpart
        exact hsegment c (h.chars s hs c hc)

theorem readSigned_absent {sign : Char} (h : StopsAt (· == sign) rest) :
    readSigned sign pos last rest = .ok ([], last, rest) := by
  unfold readSigned
  split
  · rfl
  · exact if_neg (beq_eq_false_iff_ne.1 (h _ rfl))

/-- An identifier that may be absent is read back from its text with its sign. -/
theorem readSigned_singleton (sign : Char) (last : Position) (h : IsIdentifier? pos segments)
    (hrest : StopsAt isIdentifierChar rest) (hsign : StopsAt (· == sign) rest) :
    ∃ last', readSigned sign pos last
      ((identifierText (String.singleton sign) segments).toList ++ rest) =
      .ok (segments, last', rest) := by
  rw [toList_identifierText]
  rcases h with rfl | h
  · exact ⟨last, readSigned_absent hsign⟩
  · rw [List.isEmpty_eq_false_iff.2 h.ne_nil]
    refine ⟨pos, ?_⟩
    have hread := readIdentifier_intercalate h hrest
    simp [readSigned, hread, bind, Except.bind, pure, Except.pure]

theorem readSigned_identifierText (last : Position) (h : IsIdentifier? .pre segments)
    (hrest : StopsAt isIdentifierChar rest) :
    ∃ last', readSigned '-' .pre last ((identifierText "-" segments).toList ++ rest) =
      .ok (segments, last', rest) := by
  refine readSigned_singleton '-' last h hrest fun c hc => beq_eq_false_iff_ne.2 ?_
  rintro rfl
  exact absurd (hrest '-' hc) (by decide)

theorem isIdentifier?_of_readSigned {sign : Char} {last' : Position}
    (h : readSigned sign pos last cs = .ok (segments, last', rest)) :
    IsIdentifier? pos segments := by
  unfold readSigned at h
  split at h
  · exact .inl (Prod.mk.inj (Except.ok.inj h)).1.symm
  · split at h
    · obtain ⟨⟨segments', rest'⟩, hread, h⟩ := bind_eq_ok_iff.1 h
      obtain ⟨rfl, -⟩ := Prod.mk.inj (Except.ok.inj h)
      exact .inr (isIdentifier_of_readIdentifier hread)
    · exact .inl (Prod.mk.inj (Except.ok.inj h)).1.symm

/-! ## Versions -/

/-- The numbers of a version are within bounds and its pre-release identifier is well-formed. -/
structure Proper (v : Semver) : Prop where
  major : v.major ≤ maxNumber
  minor : v.minor ≤ maxNumber
  patch : v.patch ≤ maxNumber
  pre : IsIdentifier? .pre v.pre

theorem proper_of_readChars {v : Semver} (h : readChars cs = .ok v) : v.Proper := by
  unfold readChars at h
  split at h
  · exact nomatch h
  · obtain ⟨⟨major, rest⟩, hmajor, h⟩ := bind_eq_ok_iff.1 h
    obtain ⟨rest, -, h⟩ := bind_eq_ok_iff.1 h
    obtain ⟨⟨minor, rest⟩, hminor, h⟩ := bind_eq_ok_iff.1 h
    obtain ⟨rest, -, h⟩ := bind_eq_ok_iff.1 h
    obtain ⟨⟨patch, rest⟩, hpatch, h⟩ := bind_eq_ok_iff.1 h
    obtain ⟨⟨pre, last, rest⟩, hpre, h⟩ := bind_eq_ok_iff.1 h
    obtain ⟨⟨build, last, rest⟩, -, h⟩ := bind_eq_ok_iff.1 h
    dsimp only at h
    split at h
    · obtain rfl := Except.ok.inj h
      exact ⟨le_of_readNumber hmajor, le_of_readNumber hminor, le_of_readNumber hpatch,
        isIdentifier?_of_readSigned hpre⟩
    · exact nomatch h

theorem proper_of_readLenient {text : String} {v : Semver} (h : readLenient text = .ok v) :
    v.Proper := by
  unfold readLenient readPadded at h
  split at h
  · rename_i hread
    exact proper_of_readChars (hread.trans h)
  · split at h
    · exact nomatch h
    · exact proper_of_readChars (mapError_eq_ok_iff.1 h)

end Depsolve.Semver
