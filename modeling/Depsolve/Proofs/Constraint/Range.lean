import Depsolve.Constraint.Range
import Depsolve.Proofs.Semver.Requirement
import Depsolve.Proofs.Text.Trimming

/-!
# The text of a range is a normal form

A range that was read, or that is made of a tag, is read back from its text (`Range.read_toText`).
The text of a requirement has a comma and a space between comparators, where the reader of ranges
cuts it into the comparators again; each comparator has its operator in front and no `v`, so cutting
and joining changes nothing.

White space around a text goes to its first and its last alternative, which are trimmed, so that it
does not count (`Range.read_trimmed`).
-/

namespace Depsolve

open Semver (Requirement Comparator StopsAt)

/-- A range that can be read. -/
structure Range.Proper (range : Range) : Prop where
  ne_nil : range.alternatives ≠ []
  alternatives : ∀ r ∈ range.alternatives, r.Proper

namespace Range

variable {cs rest : List Char}

/-! ## Tokens -/

theorem isSeparator_of_isBlank {c : Char} (h : Text.isBlank c = true) : isSeparator c = true := by
  rw [isSeparator, h, Bool.or_true]

theorem isBlank_of_isSegmentChar {c : Char} (h : Semver.isSegmentChar c = true) :
    Text.isBlank c = false := by
  have hrange : (48 ≤ c.toNat ∧ c.toNat ≤ 57) ∨ (65 ≤ c.toNat ∧ c.toNat ≤ 90) ∨
      (97 ≤ c.toNat ∧ c.toNat ≤ 122) ∨ c.toNat = 45 := by
    have h : ((decide (c.val ≥ 65 ∧ c.val ≤ 90) || c.val ≥ 97 && c.val ≤ 122) ||
        (c.val ≥ 48 && c.val ≤ 57) || c == '-') = true := h
    simp only [Bool.or_eq_true, Bool.and_eq_true, decide_eq_true_eq, beq_iff_eq, ge_iff_le,
      UInt32.le_iff_toNat_le] at h
    rcases h with ((h | h) | h) | rfl
    · exact .inr (.inl h)
    · exact .inr (.inr (.inl h))
    · exact .inl h
    · exact .inr (.inr (.inr rfl))
  simp only [Text.isBlank, Bool.or_eq_false_iff, Bool.and_eq_false_iff, decide_eq_false_iff_not,
    beq_eq_false_iff_ne]
  omega

/-- What the reader takes for one comparator and leaves as it is. -/
structure IsToken (token : List Char) : Prop where
  separators : ∀ c ∈ token, isSeparator c = false
  bars : '|' ∉ token
  /-- The token is not of operator characters only. -/
  version : token.all isOpChar = false
  kept : (splitOp token).1 ++ (splitOp token).2 = token
  ne_hyphen : token ≠ ['-']

theorem isToken_star : IsToken ['*'] where
  separators := List.forall_mem_singleton.2 (by decide)
  bars := by decide
  version := by decide
  kept := by decide
  ne_hyphen := by decide

theorem isToken_toText {c : Comparator} (h : c.Proper) : IsToken c.toText.toList := by
  obtain ⟨d, ds, hd⟩ := List.exists_cons_of_ne_nil (Nat.toDigits_ne_nil (n := c.major) (b := 10))
  have hdigit : d.isDigit = true := Semver.isDigit_of_mem_toDigits (hd ▸ List.mem_cons_self)
  have hmem : d ∈ c.toText.toList := by
    rw [c.toList_toText, hd]
    exact List.mem_append_right _ List.mem_cons_self
  have hop : ∀ e : Char, e.isDigit = true → isOpChar e = false := fun e he => by
    simp [isOpChar, Semver.ne_of_isDigit he]
  have hchars : ∀ e ∈ c.toText.toList, isSeparator e = false ∧ e ≠ '|' := by
    have hsigns : ['=', '>', '<', '~', '^', '.', '*'].all fun e => ! isSeparator e && e != '|' := by
      decide
    refine c.forall_mem_toText h
      (fun e he => by simpa using List.all_eq_true.1 hsigns e he) fun e he => ⟨?_, ?_⟩
    · have hcomma : e ≠ ',' := by
        rintro rfl
        exact absurd he (by decide)
      rw [isSeparator, isBlank_of_isSegmentChar he, beq_eq_false_iff_ne.2 hcomma, Bool.or_false]
    · rintro rfl
      exact absurd he (by decide)
  refine ⟨fun e he => (hchars e he).1, fun hbar => (hchars '|' hbar).2 rfl,
    List.all_eq_false.2 ⟨d, hmem, by simp [hop d hdigit]⟩, ?_, fun hhyphen => ?_⟩
  · have hsign : ∀ e ∈ c.op.sign.toList, isOpChar e = true :=
      List.all_eq_true.1 (by cases c.op <;> decide)
    have hnumber : StopsAt isOpChar (Nat.toDigits 10 c.major ++ c.tail) :=
      Semver.stopsAt_toDigits _ hop
    have hv := Semver.ne_of_isDigit hdigit (c := 'v') (by decide)
    rw [c.toList_toText, splitOp, Semver.takeWhile_append hsign hnumber,
      Semver.dropWhile_append hsign hnumber, hd]
    simp [hv]
  · rw [hhyphen, List.mem_singleton] at hmem
    exact Semver.ne_of_isDigit hdigit (by decide) hmem

theorem comparatorTexts_of_operator {pending token : List Char} {tokens : List (List Char)}
    (h : token.all isOpChar = true) :
    comparatorTexts pending (token :: tokens) = comparatorTexts (pending ++ token) tokens :=
  if_pos h

theorem comparatorTexts_of_version {pending token : List Char} {tokens : List (List Char)}
    (h : token.all isOpChar = false) : comparatorTexts pending (token :: tokens) =
      (comparatorTexts [] tokens).map
        ((pending ++ ((splitOp token).1 ++ (splitOp token).2)) :: ·) := by
  rw [← List.append_assoc]
  exact if_neg (Bool.eq_false_iff.1 h)

theorem comparatorTexts_of_tokens {tokens : List (List Char)}
    (h : ∀ token ∈ tokens, IsToken token) : comparatorTexts [] tokens = .ok tokens := by
  induction tokens with
  | nil => rfl
  | cons token tokens ih =>
    obtain ⟨htoken, htokens⟩ := List.forall_mem_cons.1 h
    rw [comparatorTexts_of_version htoken.version, htoken.kept, ih htokens]
    rfl

theorem readTokens_of_tokens {tokens : List (List Char)} (h : ∀ token ∈ tokens, IsToken token) :
    readTokens tokens = readRequirement tokens := by
  unfold readTokens
  split
  · exact absurd rfl (h ['-'] (by simp)).ne_hyphen
  · rw [comparatorTexts_of_tokens h]
    rfl

/-! ## Alternatives -/

theorem readAlternative_of_stretches {tokens : List (List Char)}
    (h : Text.stretches isSeparator cs = tokens) (hne : tokens ≠ []) :
    readAlternative cs = readTokens tokens := by
  have htrim : Text.stretches isSeparator (Text.trim cs) = tokens :=
    (Text.stretches_trim fun _ => isSeparator_of_isBlank).trans h
  unfold readAlternative
  dsimp only
  rw [htrim]
  cases hcs : Text.trim cs with
  | nil =>
    rw [hcs] at htrim
    exact absurd htrim.symm hne
  | cons c cs => rfl

/-- The tokens of a requirement's text. -/
def tokens (r : Requirement) : List (List Char) :=
  if r.comparators.isEmpty then [['*']] else r.comparators.map fun c => c.toText.toList

variable {r : Requirement}

theorem tokens_ne_nil : tokens r ≠ [] := by
  unfold tokens
  split
  · exact List.cons_ne_nil _ _
  · rename_i hne
    simpa using hne

theorem isToken_of_mem_tokens (h : r.Proper) : ∀ token ∈ tokens r, IsToken token := by
  unfold tokens
  split
  · exact fun token htoken => List.mem_singleton.1 htoken ▸ isToken_star
  · intro token htoken
    obtain ⟨c, hc, rfl⟩ := List.mem_map.1 htoken
    exact isToken_toText (h.comparators c hc)

theorem intercalate_tokens : [',', ' '].intercalate (tokens r) = r.toText.toList := by
  rw [r.toList_toText]
  unfold tokens
  split <;> rfl

theorem bar_not_mem_toText (h : r.Proper) : '|' ∉ r.toText.toList := by
  rw [← intercalate_tokens]
  intro hbar
  rcases Semver.mem_intercalate hbar with hbar | ⟨token, htoken, hbar⟩
  · exact absurd hbar (by decide)
  · exact (isToken_of_mem_tokens h token htoken).bars hbar

/-- A requirement is read back from its text with white space around it. -/
theorem readAlternative_toText (h : r.Proper) (front back : List Char)
    (hfront : ∀ c ∈ front, c = ' ') (hback : ∀ c ∈ back, c = ' ') :
    readAlternative (front ++ r.toText.toList ++ back) = .ok r := by
  have hspace : ∀ c, c = ' ' → isSeparator c = true := by
    rintro _ rfl
    decide
  have hstretches : Text.stretches isSeparator (front ++ r.toText.toList ++ back) = tokens r := by
    rw [Text.stretches_append_of_forall' fun c hc => hspace c (hback c hc),
      Text.stretches_append_of_forall fun c hc => hspace c (hfront c hc), ← intercalate_tokens]
    refine Text.stretches_intercalate (List.cons_ne_nil _ _) (List.all_eq_true.1 (by decide))
      fun token htoken => ?_
    have hisToken := isToken_of_mem_tokens h token htoken
    refine ⟨?_, hisToken.separators⟩
    rintro rfl
    exact absurd hisToken.version (by decide)
  rw [readAlternative_of_stretches hstretches tokens_ne_nil,
    readTokens_of_tokens (isToken_of_mem_tokens h), readRequirement, intercalate_tokens,
    Requirement.readChars_toText h]
  rfl

/-! ## Ranges -/

theorem splitBars_ne_nil : splitBars cs ≠ [] := by
  unfold splitBars
  split
  · exact List.cons_ne_nil _ _
  · exact List.cons_ne_nil _ _
  · split <;> exact List.cons_ne_nil _ _

theorem splitBars_of_no_bars (h : ¬ ['|', '|'] <:+: cs) : splitBars cs = [cs] := by
  fun_induction splitBars cs with
  | case1 => rfl
  | case2 rest _ => exact absurd ⟨[], rest, rfl⟩ h
  | case3 c rest hbar hnil _ => exact absurd hnil splitBars_ne_nil
  | case4 c rest hbar first others hcons ih =>
    rw [ih fun hbars => h (hbars.trans (List.suffix_cons c rest).isInfix)] at hcons
    obtain ⟨rfl, rfl⟩ := List.cons.inj hcons
    rfl

theorem splitBars_of_not_mem (h : '|' ∉ cs) : splitBars cs = [cs] :=
  splitBars_of_no_bars fun hbars => h (hbars.subset List.mem_cons_self)

theorem splitBars_append (h : '|' ∉ cs) :
    splitBars (cs ++ '|' :: '|' :: rest) = cs :: splitBars rest := by
  induction cs with
  | nil => rfl
  | cons c cs ih =>
    have hc : c ≠ '|' := fun hc => h (hc ▸ List.mem_cons_self)
    rw [List.cons_append, splitBars]
    · rw [ih fun hmem => h (List.mem_cons_of_mem _ hmem)]
    · rintro rest' rfl
      exact absurd rfl hc

/-- Requirements are read back from their texts with bars between them. -/
theorem mapM_readAlternative {rs : List Requirement} (hne : rs ≠ []) (h : ∀ r ∈ rs, r.Proper)
    (front : List Char) (hfront : ∀ c ∈ front, c = ' ') :
    (splitBars (front ++ [' ', '|', '|', ' '].intercalate (rs.map fun r => r.toText.toList))).mapM
      readAlternative = .ok rs := by
  have hbars : ∀ {l : List Char}, (∀ c ∈ l, c = ' ') → '|' ∉ l :=
    fun hl hbar => absurd (hl '|' hbar) (by decide)
  induction rs generalizing front with
  | nil => exact absurd rfl hne
  | cons r rs ih =>
    have hr := h r List.mem_cons_self
    cases rs with
    | nil =>
      have hread := readAlternative_toText hr front [] hfront (fun _ hc => nomatch hc)
      rw [List.append_nil] at hread
      rw [List.map_singleton, List.intercalate_singleton, splitBars_of_not_mem]
      · simp [hread, bind, Except.bind, pure, Except.pure]
      · exact fun hbar => (List.mem_append.1 hbar).elim (hbars hfront) (bar_not_mem_toText hr)
    | cons next rs =>
      have hrest :=
        ih (List.cons_ne_nil _ _) (fun r hmem => h r (List.mem_cons_of_mem _ hmem)) [' '] (by simp)
      have hread := readAlternative_toText hr front [' '] hfront (by simp)
      have hcut : front ++ [' ', '|', '|', ' '].intercalate
          ((r :: next :: rs).map fun r => r.toText.toList) =
          (front ++ r.toText.toList ++ [' ']) ++ '|' :: '|' ::
            ([' '] ++ [' ', '|', '|', ' '].intercalate
              ((next :: rs).map fun r => r.toText.toList)) := by
        simp [List.intercalate_cons_cons]
      rw [hcut, splitBars_append, List.mapM_cons, hread, hrest]
      · rfl
      · intro hbar
        rcases List.mem_append.1 hbar with hbar | hbar
        · exact (List.mem_append.1 hbar).elim (hbars hfront) (bar_not_mem_toText hr)
        · exact absurd hbar (by decide)

/-- A range is read back from its text. -/
theorem read_toText {range : Range} (h : range.Proper) : read range.toText = .ok range := by
  have hread := mapM_readAlternative h.ne_nil h.alternatives [] (fun _ hc => nomatch hc)
  rw [List.nil_append] at hread
  have hchars : range.toText.toList =
      [' ', '|', '|', ' '].intercalate (range.alternatives.map fun r => r.toText.toList) := by
    rw [toText, String.toList_intercalate, List.map_map]
    rfl
  rw [read, hchars, hread]
  rfl

theorem proper_of_readAlternative (h : readAlternative cs = .ok r) : r.Proper := by
  have hrequirement : ∀ {texts}, readRequirement texts = .ok r → r.Proper := fun hread =>
    Requirement.proper_of_readChars (mapError_eq_ok_iff.1 hread)
  unfold readAlternative at h
  dsimp only at h
  split at h
  · exact nomatch h
  · unfold readTokens at h
    split at h
    · obtain ⟨low, -, h⟩ := bind_eq_ok_iff.1 h
      obtain ⟨high, -, h⟩ := bind_eq_ok_iff.1 h
      exact hrequirement h
    · obtain ⟨texts, -, h⟩ := bind_eq_ok_iff.1 h
      exact hrequirement h

/-- Only ranges that can be read are read. -/
theorem proper_of_read {text : String} {range : Range} (h : read text = .ok range) :
    range.Proper := by
  obtain ⟨rs, hrs, rfl⟩ := map_eq_ok_iff.1 h
  refine ⟨?_, fun r hr => ?_⟩
  · rintro rfl
    exact splitBars_ne_nil (List.forall₂_nil_right_iff.1 (mapM_eq_ok_iff.1 hrs))
  · obtain ⟨alternative, -, hread⟩ := exists_of_mem_mapM hrs hr
    exact proper_of_readAlternative hread

theorem proper_caret (tag : Tag) : (caret tag).Proper := by
  have hproper := Semver.proper_of_readLenient tag.reads
  refine ⟨List.cons_ne_nil _ _, fun r hr => ?_⟩
  obtain rfl := List.mem_singleton.1 hr
  refine ⟨by simp [Semver.maxComparators], fun c hc => ?_⟩
  obtain rfl := List.mem_singleton.1 hc
  exact ⟨hproper.major, ⟨hproper.minor, hproper.patch, hproper.pre⟩, Semver.Op.noConfusion⟩

/-- The ranges of a program: it reads them, or makes them of tags. -/
inductive Arises : Range → Prop
  | read {text : String} {range : Range} (h : read text = .ok range) : Arises range
  | caret (tag : Tag) : Arises (caret tag)

/-- The text of a range is a normal form: the range is read back from it, with the same comparators
in the same alternatives. -/
theorem read_toText_of_arises {range : Range} (h : range.Arises) :
    read range.toText = .ok range := by
  have hproper : range.Proper := by
    cases h with
    | read h => exact proper_of_read h
    | caret tag => exact proper_caret tag
  exact read_toText hproper

theorem read_toText_of_mixed :
    ∃ range, read " v1.x|| 3 - 4.1-rc+b7||> = v1.0.0-rc.1+b7 <2,~3||*" = .ok range ∧
      range.toText = "1.* || >=3.0.0, <=4.1.0-rc || >=1.0.0-rc.1, <2, ~3 || *" ∧
      read range.toText = .ok range := by
  have hread : (read " v1.x|| 3 - 4.1-rc+b7||> = v1.0.0-rc.1+b7 <2,~3||*").toOption.map toText =
      some "1.* || >=3.0.0, <=4.1.0-rc || >=1.0.0-rc.1, <2, ~3 || *" := by
    decide +kernel
  obtain ⟨range, h, htext⟩ := exists_of_map_toOption hread
  exact ⟨range, h, htext, read_toText_of_arises (.read h)⟩

/-! ## White space at the ends -/

variable {c : Char} {back first : List Char} {others : List (List Char)}

theorem readAlternative_trim (cs : List Char) :
    readAlternative (Text.trim cs) = readAlternative cs := by
  unfold readAlternative
  rw [Text.trim_trim]

theorem splitBars_cons (h : ∀ rest, c = '|' → cs ≠ '|' :: rest)
    (hcs : splitBars cs = first :: others) : splitBars (c :: cs) = (c :: first) :: others := by
  rw [splitBars, hcs]
  exact h

/-- What stands behind a text and has no bars goes to the last alternative. -/
theorem exists_splitBars_append (hback : '|' ∉ back) (cs : List Char) :
    ∃ before last, splitBars cs = before ++ [last] ∧
      splitBars (cs ++ back) = before ++ [last ++ back] := by
  fun_induction splitBars cs with
  | case1 => exact ⟨[], [], rfl, splitBars_of_not_mem hback⟩
  | case2 rest ih =>
    obtain ⟨before, last, hrest, happend⟩ := ih
    refine ⟨[] :: before, last, by rw [hrest, List.cons_append], ?_⟩
    rw [List.cons_append, List.cons_append, splitBars, happend, List.cons_append]
  | case3 c rest h hnil _ => exact absurd hnil splitBars_ne_nil
  | case4 c rest h first others hcons ih =>
    obtain ⟨before, last, hrest, happend⟩ := ih
    -- the bar behind `c` would have to stand in what was put behind the text
    have hbar : ∀ rest', c = '|' → rest ++ back ≠ '|' :: rest' := by
      rintro rest' hc heq
      cases rest with
      | nil =>
        rw [List.nil_append] at heq
        exact hback (heq ▸ List.mem_cons_self)
      | cons d rest =>
        obtain ⟨rfl, -⟩ := List.cons.inj heq
        exact h rest hc rfl
    rw [hcons] at hrest
    cases before with
    | nil =>
      obtain ⟨rfl, rfl⟩ := List.cons.inj hrest
      exact ⟨[], c :: first, rfl, splitBars_cons hbar happend⟩
    | cons part before =>
      obtain ⟨rfl, rfl⟩ := List.cons.inj hrest
      exact ⟨(c :: first) :: before, last, rfl, splitBars_cons hbar happend⟩

theorem ne_bar_of_isBlank (h : Text.isBlank c = true) : c ≠ '|' := by
  rintro rfl
  exact absurd h (by decide)

/-- The white space at the ends of a text goes to alternatives that are trimmed. -/
theorem map_trim_splitBars_trim (cs : List Char) :
    (splitBars (Text.trim cs)).map Text.trim = (splitBars cs).map Text.trim := by
  obtain ⟨front, back, hcs, hfront, hback⟩ := Text.exists_trim cs
  have hbars : '|' ∉ back := fun hmem => ne_bar_of_isBlank (hback _ hmem) rfl
  have hleft : ∀ {front : List Char} {cs : List Char}, (∀ c ∈ front, Text.isBlank c = true) →
      (splitBars (front ++ cs)).map Text.trim = (splitBars cs).map Text.trim := by
    intro front cs hfront
    induction front with
    | nil => rfl
    | cons c front ih =>
      have hc := hfront c List.mem_cons_self
      have hne : splitBars (front ++ cs) ≠ [] := splitBars_ne_nil
      obtain ⟨first, others, hsplit⟩ := List.exists_cons_of_ne_nil hne
      rw [List.cons_append,
        splitBars_cons (fun _ hbar => absurd hbar (ne_bar_of_isBlank hc)) hsplit, List.map_cons,
        Text.trim_cons_of_blank hc, ← List.map_cons, ← hsplit,
        ih fun d hd => hfront d (List.mem_cons_of_mem _ hd)]
  obtain ⟨before, last, hsplit, happend⟩ := exists_splitBars_append hbars (front ++ Text.trim cs)
  conv =>
    rhs
    rw [hcs, happend, List.map_append, List.map_singleton,
      Text.trim_append_of_blank hback, ← List.map_singleton, ← List.map_append, ← hsplit,
      hleft hfront]

/-- White space around a text does not count in a range. -/
theorem read_trimmed (text : String) : read (Text.trimmed text) = read text := by
  have hmap : ∀ parts : List (List Char), parts.mapM readAlternative =
      (parts.map Text.trim).mapM readAlternative := by
    intro parts
    induction parts with
    | nil => rfl
    | cons part parts ih =>
      rw [List.map_cons, List.mapM_cons, List.mapM_cons, readAlternative_trim, ih]
  rw [read, read, Text.trimmed, String.toList_ofList, hmap, map_trim_splitBars_trim, ← hmap]

end Range

end Depsolve
