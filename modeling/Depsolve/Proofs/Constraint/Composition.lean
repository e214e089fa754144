import Depsolve.Proofs.Constraint.Naming
import Depsolve.Proofs.Semver.Conjunction

/-!
# Ranges are put together from their texts

Two texts of ranges with bars between them are the text of the union, and two texts of comparators
with separators between them are the text of the conjunction (`Range.read_combined`). That is
because no accepted text has a bar in an alternative (`bar_not_mem_of_readAlternative`), and no
token of comparators is an operator that waits for a version, or a hyphen that could make an
interval of what stands around it (`hyphen_not_mem`).
-/

namespace Depsolve.Range

open Semver (Requirement Comparator ListsComparators StopsAt isSignChar isWildcardChar)

variable {cs pending : List Char} {tokens tokens' texts texts' : List (List Char)} {c : Char}
  {r s : Requirement} {a b : String}

/-! ## Texts with something between them -/

theorem mem_intercalate_of_mem_flatten {between : List Char} {parts : List (List Char)}
    (hc : c ∈ parts.flatten) : c ∈ between.intercalate parts := by
  induction parts with
  | nil => exact hc
  | cons part parts ih =>
    cases parts with
    | nil =>
      rw [List.intercalate_singleton]
      simpa using hc
    | cons next parts =>
      rw [List.flatten_cons, List.mem_append] at hc
      rw [List.intercalate_cons_cons, List.mem_append]
      exact hc.imp (List.mem_append_left _) ih

/-! ## Tokens -/

/-- Which comparators tokens spell: a token of operator characters only waits for the
version behind it. -/
inductive SpellsComparators : List Char → List (List Char) → List (List Char) → Prop
  | nil : SpellsComparators [] [] []
  | operator {pending token : List Char} {tokens texts : List (List Char)}
      (hop : token.all isOpChar = true) (h : SpellsComparators (pending ++ token) tokens texts) :
      SpellsComparators pending (token :: tokens) texts
  | version {pending token : List Char} {tokens texts : List (List Char)}
      (hop : token.all isOpChar = false) (h : SpellsComparators [] tokens texts) :
      SpellsComparators pending (token :: tokens)
        ((pending ++ ((splitOp token).1 ++ (splitOp token).2)) :: texts)

theorem comparatorTexts_eq_ok_iff :
    comparatorTexts pending tokens = .ok texts ↔ SpellsComparators pending tokens texts := by
  constructor
  · intro h
    induction tokens generalizing pending texts with
    | nil =>
      cases pending with
      | nil =>
        cases h
        exact .nil
      | cons c pending => cases h
    | cons token tokens ih =>
      cases hop : token.all isOpChar with
      | true =>
        rw [comparatorTexts_of_operator hop] at h
        exact .operator hop (ih h)
      | false =>
        rw [comparatorTexts_of_version hop] at h
        obtain ⟨others, hothers, rfl⟩ := map_eq_ok_iff.1 h
        exact .version hop (ih hothers)
  · intro h
    induction h with
    | nil => rfl
    | operator hop _ ih => rw [comparatorTexts_of_operator hop, ih]
    | version hop _ ih =>
      rw [comparatorTexts_of_version hop, ih]
      rfl

theorem mem_splitOp_iff (hv : c ≠ 'v') : c ∈ (splitOp cs).1 ++ (splitOp cs).2 ↔ c ∈ cs := by
  conv =>
    rhs
    rw [← List.takeWhile_append_dropWhile (p := isOpChar) (l := cs)]
  unfold splitOp
  dsimp only
  rw [List.mem_append, List.mem_append]
  split
  · rename_i rest heq
    rw [heq, List.mem_cons, or_iff_right hv]
  · rfl

theorem eq_of_splitOp (h : (splitOp cs).1 ++ (splitOp cs).2 = [c]) (hc : isOpChar c = false) :
    cs = [c] ∨ cs = ['v', c] := by
  have hstops : StopsAt isOpChar cs := by
    intro d hd
    by_contra hop
    have hop : isOpChar d = true := by simpa using hop
    obtain ⟨rest, rfl⟩ := List.head?_eq_some_iff.1 hd
    have hmem : d ∈ (splitOp (d :: rest)).1 ++ (splitOp (d :: rest)).2 := by simp [splitOp, hop]
    rw [h] at hmem
    obtain rfl := List.mem_singleton.1 hmem
    exact absurd hop (Bool.eq_false_iff.1 hc)
  unfold splitOp at h
  rw [Semver.takeWhile_of_stopsAt hstops, Semver.dropWhile_of_stopsAt hstops] at h
  dsimp only at h
  split at h
  · exact .inr (congrArg (List.cons 'v') h)
  · exact .inl h

theorem isOpChar_of_isWildcardChar (h : isWildcardChar c = true) : isOpChar c = false := by
  simp only [isWildcardChar, Bool.or_eq_true, beq_iff_eq] at h
  rcases h with (rfl | rfl) | rfl <;> decide

namespace SpellsComparators

theorem append (h : SpellsComparators pending tokens texts)
    (h' : SpellsComparators [] tokens' texts') :
    SpellsComparators pending (tokens ++ tokens') (texts ++ texts') := by
  induction h with
  | nil => exact h'
  | operator hop _ ih => exact .operator hop ih
  | version hop _ ih => exact .version hop ih

/-- The characters of the comparators are those of the tokens, but for a `v`. -/
theorem mem_flatten_iff (h : SpellsComparators pending tokens texts) (hv : c ≠ 'v') :
    c ∈ texts.flatten ↔ c ∈ pending ∨ c ∈ tokens.flatten := by
  induction h with
  | nil => simp
  | operator _ _ ih => rw [ih, List.mem_append, List.flatten_cons, List.mem_append, or_assoc]
  | version _ _ ih =>
    rw [List.flatten_cons, List.mem_append, List.mem_append, mem_splitOp_iff hv, ih,
      or_iff_right List.not_mem_nil, List.flatten_cons, List.mem_append, or_assoc]

/-- An operator is kept for the comparator behind it. -/
theorem texts_ne_nil (h : SpellsComparators pending tokens texts) (hne : pending ≠ []) :
    texts ≠ [] := by
  induction h with
  | nil => exact absurd rfl hne
  | operator _ _ ih => exact ih (by simp [hne])
  | version => exact List.cons_ne_nil _ _

theorem eq_nil (h : SpellsComparators [] tokens []) (hne : ∀ token ∈ tokens, token ≠ []) :
    tokens = [] := by
  cases h with
  | nil => rfl
  | operator _ h => exact absurd rfl (h.texts_ne_nil (hne _ List.mem_cons_self))

/-- A lone wildcard is one token, maybe behind a `v`. -/
theorem eq_of_wildcard (h : SpellsComparators [] tokens [[c]]) (hc : isWildcardChar c = true)
    (hne : ∀ token ∈ tokens, token ≠ []) : tokens = [[c]] ∨ tokens = [['v', c]] := by
  have hopc := isOpChar_of_isWildcardChar hc
  obtain ⟨texts, htexts⟩ : ∃ texts, texts = [[c]] := ⟨_, rfl⟩
  rw [← htexts] at h
  cases h with
  | nil => exact nomatch htexts
  | @operator _ token tokens _ hop h =>
    subst htexts
    -- the operator would stand in the text of the comparator
    obtain ⟨d, token, rfl⟩ := List.exists_cons_of_ne_nil (hne token List.mem_cons_self)
    have hd : isOpChar d = true := List.all_eq_true.1 hop d List.mem_cons_self
    have hv : d ≠ 'v' := by
      rintro rfl
      exact absurd hd (by decide)
    have hmem : d ∈ [[c]].flatten := (h.mem_flatten_iff hv).2 (.inl List.mem_cons_self)
    obtain rfl := List.mem_singleton.1 hmem
    exact absurd hd (Bool.eq_false_iff.1 hopc)
  | @version _ token tokens texts hop h =>
    obtain ⟨htext, rfl⟩ := List.cons.inj htexts
    obtain rfl := h.eq_nil fun token htoken => hne token (List.mem_cons_of_mem _ htoken)
    exact (eq_of_splitOp htext hopc).imp (congrArg fun token => [token])
      (congrArg fun token => [token])

end SpellsComparators

/-! ## No hyphens -/

theorem isSignChar_of_isOpChar (h : isOpChar c = true) : isSignChar c = true := by
  simp only [isOpChar, Bool.or_eq_true, beq_iff_eq] at h
  rcases h with (((rfl | rfl) | rfl) | rfl) | rfl <;> decide

/-- An operator without a number behind it lists no comparator. -/
theorem not_listsComparators_hyphen {comparators : List Comparator}
    (hpending : ∀ c ∈ pending, isOpChar c = true) :
    ¬ ListsComparators (Semver.dropSpaces (pending ++ '-' :: cs)) comparators := by
  intro h
  obtain ⟨signs, n, tail, htext, hsigns⟩ := h.exists_eq
  have hspace : Semver.dropSpaces (pending ++ '-' :: cs) = pending ++ '-' :: cs := by
    apply Semver.dropSpaces_of_stopsAt
    cases pending with
    | nil => exact Semver.stopsAt_cons (by decide)
    | cons c pending =>
      apply Semver.stopsAt_cons
      apply beq_eq_false_iff_ne.2
      rintro rfl
      exact absurd (hpending ' ' List.mem_cons_self) (by decide)
  have hdigits : ∀ {p : Char → Bool}, (∀ c, c.isDigit = true → p c = false) →
      StopsAt p (Nat.toDigits 10 n ++ tail) := Semver.stopsAt_toDigits n
  have hnumber : StopsAt isSignChar (Nat.toDigits 10 n ++ tail) := hdigits fun c hc => by
    simp [isSignChar, Semver.ne_of_isDigit hc]
  have hhyphen : StopsAt (· == '-') (Nat.toDigits 10 n ++ tail) := hdigits fun c hc =>
    beq_eq_false_iff_ne.2 (Semver.ne_of_isDigit hc (by decide))
  -- where the signs end stands the hyphen, and the number too
  rw [hspace] at htext
  obtain ⟨-, htail⟩ :=
    Semver.append_inj_of_stopsAt (fun c hc => isSignChar_of_isOpChar (hpending c hc)) hsigns
    (Semver.stopsAt_cons (by decide)) hnumber htext
  exact absurd (hhyphen '-' (by rw [← htail]; rfl)) (by decide)

/-- No token of what lists comparators is a lone hyphen. -/
theorem SpellsComparators.hyphen_not_mem {comparators : List Comparator}
    (h : SpellsComparators pending tokens texts)
    (hlists : ListsComparators (Semver.dropSpaces ([',', ' '].intercalate texts)) comparators)
    (hpending : ∀ c ∈ pending, isOpChar c = true) (htokens : ∀ token ∈ tokens, ',' ∉ token) :
    ['-'] ∉ tokens := by
  induction h generalizing comparators with
  | nil => exact List.not_mem_nil
  | operator hop _ ih =>
    have hop := List.all_eq_true.1 hop
    rw [List.mem_cons, not_or]
    refine ⟨?_, ih hlists (List.forall_mem_append.2 ⟨hpending, hop⟩)
      (List.forall_mem_cons.1 htokens).2⟩
    rintro rfl
    exact absurd (hop '-' List.mem_cons_self) (by decide)
  | @version pending token tokens texts hop h ih =>
    obtain ⟨htoken, htokens⟩ := List.forall_mem_cons.1 htokens
    rw [List.mem_cons, not_or]
    constructor
    · rintro rfl
      obtain ⟨rest, hrest⟩ := Semver.exists_intercalate_cons [',', ' '] (pending ++ ['-']) texts
      have hword : pending ++ ((splitOp ['-']).1 ++ (splitOp ['-']).2) = pending ++ ['-'] := rfl
      rw [hword, hrest, List.append_assoc] at hlists
      exact not_listsComparators_hyphen hpending hlists
    · intro hmem
      have hflat : '-' ∈ texts.flatten := (h.mem_flatten_iff (by decide)).2
        (.inr (List.mem_flatten_of_mem hmem List.mem_cons_self))
      obtain ⟨text, htext, -⟩ := List.mem_flatten.1 hflat
      obtain ⟨next, others, rfl⟩ := List.exists_cons_of_ne_nil (List.ne_nil_of_mem htext)
      have hcomma : ',' ∉ pending ++ ((splitOp token).1 ++ (splitOp token).2) := by
        intro hc
        rcases List.mem_append.1 hc with hc | hc
        · exact absurd (hpending ',' hc) (by decide)
        · exact htoken ((mem_splitOp_iff (by decide)).1 hc)
      rw [List.intercalate_cons_cons, List.append_assoc, List.cons_append,
        Semver.dropSpaces_append (Semver.ends_comma _)] at hlists
      obtain ⟨c, right, rfl, hrest⟩ := hlists.exists_of_comma fun hc =>
        hcomma ((List.dropWhile_suffix _).subset hc)
      exact ih hrest (List.forall_mem_nil _) htokens hmem

/-! ## No bars -/

theorem bar_not_mem_of_readEnd {v : Semver} (h : readEnd cs = .ok v) : '|' ∉ cs := by
  intro hbar
  have hreads := mapError_eq_ok_iff.1 h
  rw [Semver.readLenient, String.toList_ofList] at hreads
  have hword := isWordChar_of_spells_dropV (Semver.readPadded_eq_ok_iff.1 hreads)
  obtain ⟨front, back, hcs, hfront, hback⟩ := Text.exists_trim cs
  rw [hcs] at hbar
  rcases List.mem_append.1 hbar with hbar | hbar
  · rcases List.mem_append.1 hbar with hbar | hbar
    · exact absurd (hfront '|' hbar) (by decide)
    · exact absurd (hword '|' hbar) (by decide)
  · exact absurd (hback '|' hbar) (by decide)

theorem bar_not_mem_of_readTokens (h : readTokens tokens = .ok r) : '|' ∉ tokens.flatten := by
  unfold readTokens at h
  split at h
  · obtain ⟨low, hlow, h⟩ := bind_eq_ok_iff.1 h
    obtain ⟨high, hhigh, -⟩ := bind_eq_ok_iff.1 h
    simp [bar_not_mem_of_readEnd hlow, bar_not_mem_of_readEnd hhigh]
  · obtain ⟨texts, htexts, hread⟩ := bind_eq_ok_iff.1 h
    intro hbar
    have hmem := ((comparatorTexts_eq_ok_iff.1 htexts).mem_flatten_iff (by decide)).2 (.inr hbar)
    have hchar := Requirement.forall_mem_of_readChars (mapError_eq_ok_iff.1 hread) '|'
      (mem_intercalate_of_mem_flatten hmem)
    exact absurd hchar (by decide)

theorem readTokens_of_readAlternative (h : readAlternative cs = .ok r) :
    readTokens (Text.stretches isSeparator cs) = .ok r := by
  unfold readAlternative at h
  dsimp only at h
  rw [Text.stretches_trim fun _ => isSeparator_of_isBlank] at h
  split at h
  · exact nomatch h
  · exact h

/-- An alternative has no bar. -/
theorem bar_not_mem_of_readAlternative (h : readAlternative cs = .ok r) : '|' ∉ cs := by
  intro hbar
  apply bar_not_mem_of_readTokens (readTokens_of_readAlternative h)
  rw [Text.flatten_stretches]
  exact List.mem_filter.2 ⟨hbar, by decide⟩

/-! ## Unions -/

theorem splitBars_append_of_forall (h : ∀ part ∈ splitBars cs, '|' ∉ part) (ds : List Char) :
    splitBars (cs ++ '|' :: '|' :: ds) = splitBars cs ++ splitBars ds := by
  fun_induction splitBars cs with
  | case1 => rfl
  | case2 rest ih =>
    rw [List.cons_append, List.cons_append, splitBars,
      ih fun part hpart => h part (List.mem_cons_of_mem _ hpart)]
    rfl
  | case3 c rest hbar hnil _ => exact absurd hnil splitBars_ne_nil
  | case4 c rest hbar first others hcons ih =>
    obtain ⟨hfirst, hothers⟩ := List.forall_mem_cons.1 h
    have hc : c ≠ '|' := fun hc => hfirst (hc ▸ List.mem_cons_self)
    have hrest :=
      ih (hcons ▸ List.forall_mem_cons.2 ⟨fun hmem => hfirst (List.mem_cons_of_mem _ hmem),
        hothers⟩)
    rw [hcons] at hrest
    rw [List.cons_append, splitBars_cons (fun _ hbar => absurd hbar hc) hrest]
    rfl

/-- Two ranges with bars between them are read as one, with the alternatives of both. -/
theorem read_append_bars {a b : String} {left right : Range} (ha : read a = .ok left)
    (hb : read b = .ok right) :
    read (a ++ "||" ++ b) = .ok ⟨left.alternatives ++ right.alternatives⟩ := by
  obtain ⟨rs, hrs, rfl⟩ := map_eq_ok_iff.1 ha
  obtain ⟨ss, hss, rfl⟩ := map_eq_ok_iff.1 hb
  have hbars : ∀ part ∈ splitBars a.toList, '|' ∉ part := by
    intro part hpart
    obtain ⟨r, -, hr⟩ := exists_of_mem_of_mapM hrs hpart
    exact bar_not_mem_of_readAlternative hr
  have htext : (a ++ "||" ++ b).toList = a.toList ++ '|' :: '|' :: b.toList := by simp
  rw [read, htext, splitBars_append_of_forall hbars, List.mapM_append, hrs, hss]
  rfl

/-! ## Conjunctions -/

/-- A text of comparators that all have to hold: no union, no interval and no lone wildcard. -/
structure IsConjunction (text : String) : Prop where
  union : ¬ ['|', '|'] <:+: text.toList
  interval : ∀ low high, Text.stretches isSeparator text.toList ≠ [low, ['-'], high]
  /-- A wildcard may stand behind a `v`, as a version may. -/
  wildcard : ∀ c, isWildcardChar c = true →
    Text.stretches isSeparator text.toList ≠ [[c]] ∧
    Text.stretches isSeparator text.toList ≠ [['v', c]]

/-- How many comparators a range has. -/
def size (range : Range) : Nat :=
  (range.alternatives.flatMap (·.comparators)).length

theorem eq_nil_of_spaces {spaces : List Char} (h : ∀ c ∈ spaces, c = ' ') (hspace : ' ' ∉ spaces) :
    spaces = [] :=
  List.eq_nil_iff_forall_not_mem.2 fun c hc => hspace (h c hc ▸ hc)

/-- Only one comparator is written without a comma. -/
theorem eq_singleton_of_intercalate {front back : List Char}
    (h : [',', ' '].intercalate texts = front ++ c :: back) (hc : c ≠ ',')
    (hfront : ∀ c ∈ front, c = ' ') (hback : ∀ c ∈ back, c = ' ') (hspace : ' ' ∉ texts.flatten) :
    texts = [[c]] := by
  have hcomma : ',' ∉ front ++ c :: back := by
    intro hmem
    rcases List.mem_append.1 hmem with hmem | hmem
    · exact absurd (hfront ',' hmem) (by decide)
    · rcases List.mem_cons.1 hmem with hmem | hmem
      · exact hc hmem.symm
      · exact absurd (hback ',' hmem) (by decide)
  cases texts with
  | nil => simp at h
  | cons text others =>
    cases others with
    | nil =>
      rw [List.intercalate_singleton] at h
      rw [List.flatten_singleton, h] at hspace
      obtain ⟨hleft, hright⟩ := not_or.1 fun hmem => hspace (List.mem_append.2 hmem)
      rw [h, eq_nil_of_spaces hfront hleft,
        eq_nil_of_spaces hback fun hmem => hright (List.mem_cons_of_mem _ hmem)]
      rfl
    | cons next others =>
      rw [List.intercalate_cons_cons] at h
      rw [← h] at hcomma
      simp at hcomma

/-- A requirement without comparators is read of a lone wildcard. -/
theorem comparators_ne_nil (htexts : SpellsComparators [] tokens texts)
    (h : Requirement.readChars ([',', ' '].intercalate texts) = .ok r)
    (htokens : ∀ token ∈ tokens, token ≠ [] ∧ ∀ c ∈ token, isSeparator c = false)
    (hwildcard : ∀ c, isWildcardChar c = true → tokens ≠ [[c]] ∧ tokens ≠ [['v', c]]) :
    r.comparators ≠ [] := by
  intro hnil
  obtain ⟨c, rest, htext, hc, hrest⟩ := Requirement.exists_of_readChars_of_nil h hnil
  obtain ⟨front, hfront, hspaces⟩ := Semver.exists_eq_dropSpaces ([',', ' '].intercalate texts)
  obtain ⟨back, hback, hspaces'⟩ := Semver.exists_eq_dropSpaces rest
  rw [hrest, List.append_nil] at hback
  rw [htext, hback] at hfront
  have hcomma : c ≠ ',' := by
    rintro rfl
    exact absurd hc (by decide)
  have hspace : ' ' ∉ texts.flatten := by
    rw [htexts.mem_flatten_iff (by decide), or_iff_right List.not_mem_nil]
    intro hmem
    obtain ⟨token, htoken, hmem⟩ := List.mem_flatten.1 hmem
    exact absurd ((htokens token htoken).2 ' ' hmem) (by decide)
  obtain rfl := eq_singleton_of_intercalate hfront hcomma hspaces hspaces' hspace
  obtain ⟨hne, hne'⟩ := hwildcard c hc
  exact (htexts.eq_of_wildcard hc fun token htoken => (htokens token htoken).1).elim hne hne'

theorem readTokens_of_ne_interval (h : ∀ low high, tokens ≠ [low, ['-'], high]) :
    readTokens tokens = comparatorTexts [] tokens >>= readRequirement := by
  unfold readTokens
  split
  · exact absurd rfl (h _ _)
  · rfl

/-- What a conjunction is read as: the comparators that its tokens spell. -/
structure ReadsAs (text : String) (r : Requirement) (texts : List (List Char)) : Prop where
  bars : '|' ∉ text.toList
  hyphen : ['-'] ∉ Text.stretches isSeparator text.toList
  spelled : SpellsComparators [] (Text.stretches isSeparator text.toList) texts
  read : Requirement.readChars ([',', ' '].intercalate texts) = .ok r
  ne_nil : r.comparators ≠ []

theorem IsConjunction.exists_readsAs {a : String} {range : Range} (h : IsConjunction a)
    (ha : read a = .ok range) : ∃ r texts, range = ⟨[r]⟩ ∧ ReadsAs a r texts := by
  obtain ⟨rs, hrs, rfl⟩ := map_eq_ok_iff.1 ha
  rw [splitBars_of_no_bars h.union, List.mapM_cons, List.mapM_nil] at hrs
  obtain ⟨r, hr, hrs⟩ := bind_eq_ok_iff.1 hrs
  cases hrs
  have htokens := readTokens_of_readAlternative hr
  rw [readTokens_of_ne_interval h.interval] at htokens
  obtain ⟨texts, htexts, hread⟩ := bind_eq_ok_iff.1 htokens
  have hparts : ∀ token ∈ Text.stretches isSeparator a.toList, token ≠ [] ∧
      ∀ c ∈ token, isSeparator c = false :=
    fun token htoken => Text.of_mem_stretches htoken
  have hspelled := comparatorTexts_eq_ok_iff.1 htexts
  have hread := mapError_eq_ok_iff.1 hread
  have hne := comparators_ne_nil hspelled hread hparts h.wildcard
  obtain ⟨hlists, -⟩ := (Requirement.readChars_eq_ok_iff_of_ne_nil hne).1 hread
  refine ⟨r, texts, rfl, bar_not_mem_of_readAlternative hr, ?_, hspelled, hread, hne⟩
  exact hspelled.hyphen_not_mem hlists (List.forall_mem_nil _) fun token htoken hmem =>
    absurd ((hparts token htoken).2 ',' hmem) (by decide)

theorem ReadsAs.texts_ne_nil {a : String} (h : ReadsAs a r texts) : texts ≠ [] := by
  rintro rfl
  exact nomatch h.read

/-- Two conjunctions with separators between them are one, with the comparators of both. -/
theorem read_append_separators {a b between : String} (ha : ReadsAs a r texts)
    (hb : ReadsAs b s texts')
    (hfew : r.comparators.length + s.comparators.length ≤ Semver.maxComparators)
    (hne : between ≠ "") (hbetween : ∀ c ∈ between.toList, isSeparator c = true) :
    read (a ++ between ++ b) = .ok ⟨[⟨r.comparators ++ s.comparators⟩]⟩ := by
  have htext : (a ++ between ++ b).toList = a.toList ++ between.toList ++ b.toList := by simp
  have hbar : '|' ∉ a.toList ++ between.toList ++ b.toList := by
    have hmiddle : '|' ∉ between.toList := fun hmem => absurd (hbetween '|' hmem) (by decide)
    simp [ha.bars, hmiddle, hb.bars]
  have htokens : Text.stretches isSeparator (a.toList ++ between.toList ++ b.toList) =
      Text.stretches isSeparator a.toList ++ Text.stretches isSeparator b.toList :=
    Text.stretches_append_append (by simpa using hne) hbetween
  have hspelled := ha.spelled.append hb.spelled
  have hinterval : ∀ low high,
      Text.stretches isSeparator a.toList ++ Text.stretches isSeparator b.toList ≠
      [low, ['-'], high] := by
    intro low high heq
    have hmem : ['-'] ∈ Text.stretches isSeparator a.toList ++
        Text.stretches isSeparator b.toList := by simp [heq]
    exact (List.mem_append.1 hmem).elim ha.hyphen hb.hyphen
  have htokensne :
      Text.stretches isSeparator a.toList ++ Text.stretches isSeparator b.toList ≠ [] := by
    have hleft := ha.spelled
    have hne := ha.texts_ne_nil
    intro hnil
    rw [(List.append_eq_nil_iff.1 hnil).1] at hleft
    cases hleft
    exact hne rfl
  have hright : Requirement.readChars (' ' :: [',', ' '].intercalate texts') = .ok s := hb.read
  have hread := Requirement.readChars_append ha.read hright ha.ne_nil hb.ne_nil hfew
  have hjoin : [',', ' '].intercalate (texts ++ texts') =
      [',', ' '].intercalate texts ++ ',' :: ' ' :: [',', ' '].intercalate texts' := by
    rw [Text.intercalate_append ha.texts_ne_nil hb.texts_ne_nil, List.append_assoc]
    rfl
  rw [read, htext, splitBars_of_not_mem hbar, List.mapM_cons,
    readAlternative_of_stretches htokens htokensne, readTokens_of_ne_interval hinterval,
    comparatorTexts_eq_ok_iff.2 hspelled]
  simp [bind, Except.bind, readRequirement, hjoin, hread, pure, Except.pure, Except.map]

/-! ## Combined ranges -/

theorem admits_append (rs ss : List Requirement) (tag : Tag) :
    admits ⟨rs ++ ss⟩ tag = (admits ⟨rs⟩ tag || admits ⟨ss⟩ tag) :=
  List.any_append

theorem admits_singleton_of_release {tag : Tag} (h : tag.isPrerelease = false) (r : Requirement) :
    admits ⟨[r]⟩ tag = r.comparators.all (·.holds tag.version) := by
  have hpre : tag.version.pre.isEmpty = true := by simpa [Tag.isPrerelease] using h
  simp [admits, Requirement.admits, hpre]

/-- Ranges are put together from their texts. -/
theorem read_combined {a b : String} {left right : Range} (ha : read a = .ok left)
    (hb : read b = .ok right) :
    (∃ union, read (a ++ "||" ++ b) = .ok union ∧
      ∀ tag, union.admits tag = (left.admits tag || right.admits tag)) ∧
    (IsConjunction a → IsConjunction b → left.size + right.size ≤ 32 →
      ∀ between : String, between ≠ "" → (∀ c ∈ between.toList, c = ',' ∨ Text.isBlank c = true) →
      ∃ meet, read (a ++ between ++ b) = .ok meet ∧
        ∀ tag, tag.isPrerelease = false →
          meet.admits tag = (left.admits tag && right.admits tag)) := by
  refine ⟨⟨_, read_append_bars ha hb, admits_append left.alternatives right.alternatives⟩, ?_⟩
  intro hleft hright hfew between hne hbetween
  obtain ⟨r, texts, rfl, hr⟩ := hleft.exists_readsAs ha
  obtain ⟨s, texts', rfl, hs⟩ := hright.exists_readsAs hb
  have hseparators : ∀ c ∈ between.toList, isSeparator c = true := fun c hc => by
    simpa [isSeparator] using hbetween c hc
  have hfew : r.comparators.length + s.comparators.length ≤ 32 := by simpa [size] using hfew
  refine ⟨_, read_append_separators hr hs hfew hne hseparators, fun tag hrelease => ?_⟩
  rw [admits_singleton_of_release hrelease, admits_singleton_of_release hrelease,
    admits_singleton_of_release hrelease, List.all_append]

/-- Operators apart from their versions, a `v` and a pre-release on one side, a wildcard on the
other. -/
theorem read_combined_of_spaced :
    ∃ left right, read ">= v1.2.0-rc.1 , <3" = .ok left ∧ read "~ 2.x" = .ok right ∧
      left.size + right.size = 3 ∧ (∃ union, read ">= v1.2.0-rc.1 , <3||~ 2.x" = .ok union ∧
        ∀ tag, union.admits tag = (left.admits tag || right.admits tag)) ∧
      ∃ meet, read ">= v1.2.0-rc.1 , <3 ,\t~ 2.x" = .ok meet ∧
        ∀ tag, tag.isPrerelease = false →
          meet.admits tag = (left.admits tag && right.admits tag) := by
  have hleft : (read ">= v1.2.0-rc.1 , <3").toOption.map size = some 2 := by decide +kernel
  have hright : (read "~ 2.x").toOption.map size = some 1 := by decide +kernel
  obtain ⟨left, ha, hsize⟩ := exists_of_map_toOption hleft
  obtain ⟨right, hb, hsize'⟩ := exists_of_map_toOption hright
  have htokens : Text.stretches isSeparator ">= v1.2.0-rc.1 , <3".toList =
      [">=".toList, "v1.2.0-rc.1".toList, "<3".toList] := by decide +kernel
  have htokens' : Text.stretches isSeparator "~ 2.x".toList = ["~".toList, "2.x".toList] := by
    decide +kernel
  have hconjunction : IsConjunction ">= v1.2.0-rc.1 , <3" :=
    ⟨by decide +kernel, fun _ _ => by rw [htokens]; simp, fun _ _ => by rw [htokens]; simp⟩
  have hconjunction' : IsConjunction "~ 2.x" :=
    ⟨by decide +kernel, fun _ _ => by rw [htokens']; simp, fun _ _ => by rw [htokens']; simp⟩
  obtain ⟨hunion, hmeet⟩ := read_combined ha hb
  refine ⟨left, right, ha, hb, by rw [hsize, hsize'], hunion, ?_⟩
  exact hmeet hconjunction hconjunction' (by rw [hsize, hsize']; decide) " ,\t" (by decide)
    (by simp [Text.isBlank])

end Depsolve.Range
