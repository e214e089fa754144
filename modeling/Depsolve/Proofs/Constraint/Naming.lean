import Depsolve.Proofs.Constraint.Admission
import Depsolve.Proofs.Constraint.Range
import Depsolve.Proofs.Version.Grammar

/-!
# Tags as version texts

A tag is tried as a semantic version, and the text that asks for it as a range. The two readers
agree on most texts (`Constraint.admits_ofVersionText`): a semver tag whose numbers are written out
is also a range that admits it, and a text that is neither asks for the plain tag. A range that is
no version, such as `1.x`, is also the name of a plain tag, which no range admits.
-/

namespace Depsolve

open Semver (Requirement StopsAt Spells dropV dropV_of_ne dropV_suffix isSegmentChar isWildcardChar)

variable {cs : List Char} {v : Semver}

/-! ## Words -/

/-- A character that stands in a version, where the reader of ranges cuts nothing. -/
def Range.isWordChar (c : Char) : Bool :=
  ! isSeparator c && c != '|' && ! isOpChar c

theorem Range.isWordChar_of_isSegmentChar {c : Char} (h : isSegmentChar c = true) :
    isWordChar c = true := by
  have hne : ∀ d : Char, isSegmentChar d = false → c ≠ d := by
    rintro d hd rfl
    exact absurd (h.symm.trans hd) Bool.true_eq_false.mp
  simp [isWordChar, isSeparator, isOpChar, isBlank_of_isSegmentChar h, hne ',' (by decide),
    hne '|' (by decide), hne '<' (by decide), hne '>' (by decide), hne '=' (by decide),
    hne '~' (by decide), hne '^' (by decide)]

/-- A text of one word that does not start with an operator is read as one requirement,
behind its `v`. -/
theorem Range.read_of_word (hne : cs ≠ []) (hsep : ∀ c ∈ cs, isSeparator c = false)
    (hbars : splitBars cs = [cs]) (hop : StopsAt isOpChar cs) : read (String.ofList cs) =
      ((Requirement.readChars (splitOp cs).2).mapError .unreadable).map fun r => ⟨[r]⟩ := by
  have hversion : cs.all isOpChar = false := by
    obtain ⟨c, rest, rfl⟩ := List.exists_cons_of_ne_nil hne
    exact List.all_eq_false.2 ⟨c, List.mem_cons_self, by simp [hop c rfl]⟩
  have htokens : readTokens [cs] = readRequirement [(splitOp cs).2] := by
    have hnone : (splitOp cs).1 = [] := Semver.takeWhile_of_stopsAt hop
    simp [readTokens, comparatorTexts, hversion, hnone, Except.map, bind, Except.bind]
  have hstretches := Text.stretches_of_forall hsep hne
  rw [read, String.toList_ofList, hbars, List.mapM_cons, readAlternative_of_stretches hstretches
    (List.cons_ne_nil _ _), htokens, readRequirement, List.intercalate_singleton]
  cases Requirement.readChars (splitOp cs).2 <;> rfl

/-! ## Spellings behind a `v` -/

theorem isWordChar_of_spells_dropV (h : Spells (dropV cs) v) :
    ∀ c ∈ cs, Range.isWordChar c = true :=
  Semver.forall_mem_of_dropV (by decide) (by decide)
    (h.forall_mem (by decide) (by decide) fun _ => Range.isWordChar_of_isSegmentChar)

/-- The reader of ranges drops a `v` and no `V`. -/
theorem Range.splitOp_eq_dropV (hop : StopsAt isOpChar cs) (hupper : cs.head? ≠ some 'V') :
    (splitOp cs).2 = dropV cs := by
  have hupper : ∀ rest, cs ≠ 'V' :: rest := by
    rintro rest rfl
    exact hupper rfl
  unfold splitOp dropV
  rw [Semver.dropWhile_of_stopsAt hop]
  split
  · rfl
  · rename_i hlower
    split
    · exact absurd rfl (hlower _)
    · exact absurd rfl (hupper _)
    · rfl

/-- No requirement starts with a `V`. -/
theorem Range.head?_ne_upper {r : Requirement} (h : Requirement.readChars (splitOp cs).2 = .ok r) :
    cs.head? ≠ some 'V' := by
  intro hhead
  obtain ⟨rest, rfl⟩ := List.head?_eq_some_iff.1 hhead
  have hnone : Requirement.readChars ('V' :: rest) = .error (.unexpectedChar .major 'V') := rfl
  exact nomatch h.symm.trans hnone

/-! ## Tags -/

namespace Tag

variable {text : String} {tag : Tag}

/-- A tag spells its version, maybe behind a `v`. -/
theorem spells (tag : Tag) : Spells (dropV tag.text.toList) tag.version := by
  have hreads := tag.reads
  rw [Semver.readLenient, Text.trim_of_trimmed tag.isTrimmed] at hreads
  exact Semver.readPadded_eq_ok_iff.1 hreads

/-- The tag is spelled as the reader of ranges knows versions: its `v` is no `V`, and numbers are
left out only where no identifier follows. -/
structure IsWrittenOut (tag : Tag) : Prop where
  front : tag.text.toList.head? ≠ some 'V'
  numbers : tag.version.pre = [] ∧ tag.version.build = [] ∨
    dropV tag.text.toList = tag.version.toText.toList

theorem chars (tag : Tag) {c : Char} (hc : c ∈ tag.text.toList) :
    (Range.isSeparator c = false ∧ c ≠ '|') ∧ Range.isOpChar c = false := by
  have hword := isWordChar_of_spells_dropV tag.spells c hc
  simpa [Range.isWordChar] using hword

theorem stopsAt_isOpChar (tag : Tag) : StopsAt Range.isOpChar tag.text.toList := fun _ hc =>
  (tag.chars (List.mem_of_mem_head? hc)).2

/-- A tag is a word. -/
theorem range_read (tag : Tag) : Range.read tag.text =
    ((Requirement.readChars (Range.splitOp tag.text.toList).2).mapError .unreadable).map fun r =>
      ⟨[r]⟩ := by
  have hbar : '|' ∉ tag.text.toList := fun hmem => (tag.chars hmem).1.2 rfl
  have hword := Range.read_of_word (Semver.ne_nil_of_spells_dropV tag.spells)
    (fun _ hc => (tag.chars hc).1.1) (Range.splitBars_of_not_mem hbar) tag.stopsAt_isOpChar
  rwa [String.ofList_toList] at hword

/-- A tag that is written out is a range that admits it. -/
theorem exists_range_read (h : tag.IsWrittenOut) :
    ∃ range, Range.read tag.text = .ok range ∧ range.admits tag = true := by
  obtain ⟨c, hread, hadmits⟩ := tag.spells.exists_readChars h.numbers
  refine ⟨⟨[⟨[c]⟩]⟩, ?_, ?_⟩
  · rw [range_read, Range.splitOp_eq_dropV tag.stopsAt_isOpChar h.front, hread]
    rfl
  · simp [Range.admits, hadmits]

/-- The range that a tag is read as admits the tag. -/
theorem admits_of_range_read {range : Range} (h : Range.read tag.text = .ok range) :
    range.admits tag = true := by
  rw [range_read] at h
  obtain ⟨r, hr, rfl⟩ := map_eq_ok_iff.1 h
  have hr := mapError_eq_ok_iff.1 hr
  rw [Range.splitOp_eq_dropV tag.stopsAt_isOpChar (Range.head?_ne_upper hr)] at hr
  simp [Range.admits, tag.spells.admits_of_readChars hr]

end Tag

/-! ## Ranges that are no tags -/

theorem Semver.readOp_eq_none (h : StopsAt Range.isOpChar cs) : readOp cs = (none, cs) := by
  unfold readOp
  split
  case h_8 => rfl
  all_goals exact absurd (h _ rfl) (by decide)

/-- The marks of a range that starts like a version. -/
inductive Range.IsMarked : List Char → Prop
  | comma {cs : List Char} (h : ',' ∈ cs) : IsMarked cs
  | wildcard {cs : List Char} {c : Char} (h : c ∈ cs) (hc : isWildcardChar c = true) : IsMarked cs
  | operator {c : Char} {rest : List Char} (h : isOpChar c = true) : IsMarked ('v' :: c :: rest)

theorem Range.toList_ne_nil_of_read {text : String} {range : Range} (h : read text = .ok range) :
    text.toList ≠ [] := by
  intro hnil
  have hnone : (splitBars []).mapM readAlternative = .error .emptyAlternative := rfl
  rw [read, hnil, hnone] at h
  cases h

/-- Without marks no operator stands behind the `v`. -/
theorem Range.stopsAt_dropV (hop : StopsAt isOpChar cs) (hupper : cs.head? ≠ some 'V')
    (hmarks : ¬ IsMarked cs) : StopsAt isOpChar (dropV cs) := by
  cases cs with
  | nil => exact Semver.stopsAt_nil
  | cons c rest =>
    by_cases hv : c = 'v'
    · subst hv
      intro d hd
      obtain ⟨rest', rfl⟩ := List.head?_eq_some_iff.1 hd
      exact Bool.eq_false_iff.2 fun hopChar => hmarks (.operator hopChar)
    · rw [dropV_of_ne hv fun hc => hupper (by rw [hc]; rfl)]
      exact hop

/-- A range of one word that starts like a version and has no marks is a tag. -/
theorem Range.isMarked_of_read {text : String} {range : Range}
    (htags : ∀ tag, Tag.read text ≠ .ok tag) (htrim : Text.trimmed text = text)
    (hblank : ∀ c ∈ text.toList, Text.isBlank c = false)
    (hbars : splitBars text.toList = [text.toList]) (hop : StopsAt isOpChar text.toList)
    (h : read text = .ok range) : IsMarked text.toList := by
  by_contra hmarks
  have hcomma : ',' ∉ text.toList := fun hmem => hmarks (.comma hmem)
  have hstar : ∀ c ∈ text.toList, isWildcardChar c = false := fun c hc =>
    Bool.eq_false_iff.2 fun hwild => hmarks (.wildcard hc hwild)
  have hsep : ∀ c ∈ text.toList, isSeparator c = false := fun c hc => by
    have hne : c ≠ ',' := by
      rintro rfl
      exact hcomma hc
    simp [isSeparator, hblank c hc, hne]
  have hread := read_of_word (toList_ne_nil_of_read h) hsep hbars hop
  rw [String.ofList_toList, h] at hread
  obtain ⟨r, hr, -⟩ := map_eq_ok_iff.1 hread.symm
  have hr := mapError_eq_ok_iff.1 hr
  have hupper := head?_ne_upper hr
  rw [splitOp_eq_dropV hop hupper] at hr
  have hversion := stopsAt_dropV hop hupper hmarks
  have hmem := (dropV_suffix text.toList).subset
  obtain ⟨v, hv⟩ := Semver.spells_of_readChars (Semver.readOp_eq_none hversion)
    (fun c hc => hstar c (hmem hc))
    (fun hspace => absurd (hblank ' ' (hmem hspace)) (by decide)) (fun hc => hcomma (hmem hc)) hr
  have hreads : Semver.readLenient text = .ok v := by
    rw [Semver.readLenient, Text.trim_of_trimmed htrim]
    exact Semver.readPadded_eq_ok_iff.2 hv
  exact htags _ (Tag.read_text ⟨text, v, htrim, hreads⟩)

/-! ## Constraints -/

namespace Constraint

variable {s : String} {v : Version}

theorem ofVersionText_of_read {range : Range} (h : Range.read s = .ok range) :
    ofVersionText s = .semver range := by
  rw [ofVersionText, h]

theorem ofVersionText_of_not_read (h : ∀ range, Range.read s ≠ .ok range) :
    ofVersionText s = .plain (Text.trimmed s) := by
  unfold ofVersionText
  split
  · rename_i hread
    exact absurd hread (h _)
  · rfl

/-- What a version text asks for of the tag with this name. -/
theorem admits_ofVersionText (hs : Text.trimmed s = s) (hv : v.named? = some (.ofTag s)) :
    (∀ range, Range.read s = .ok range → ofVersionText s = .semver range ∧
      ((ofVersionText s).admits v = true ↔ ∃ tag, Tag.read s = .ok tag)) ∧
    (∀ tag, Tag.read s = .ok tag → tag.IsWrittenOut →
      (∃ range, Range.read s = .ok range) ∧ (ofVersionText s).admits v = true) ∧
    ((∀ range, Range.read s ≠ .ok range) → (∀ tag, Tag.read s ≠ .ok tag) →
      ofVersionText s = .plain s ∧ (ofVersionText s).admits v = true) := by
  have htext : ∀ {tag}, Tag.read s = .ok tag → tag.text = s :=
    fun h => (Tag.text_of_read h).trans hs
  have htag : ∀ {tag}, Tag.read s = .ok tag → v.tag? = some tag := fun h => by
    simp [Version.tag?, hv, Named.ofTag, h, Named.tag?]
  refine ⟨fun range hrange => ?_, fun tag hread hwritten => ?_, fun hrange htags => ?_⟩
  · have hkind := ofVersionText_of_read hrange
    refine ⟨hkind, ?_⟩
    rw [hkind]
    cases hread : Tag.read s with
    | ok tag =>
      have hadmits : range.admits tag = true :=
        Tag.admits_of_range_read (by rw [htext hread, hrange])
      simp [admits, htag hread, hadmits]
    | error e =>
      simp [admits, Version.tag?, hv, Named.ofTag, hread, Named.tag?]
  · obtain ⟨range, hrange, hadmits⟩ := Tag.exists_range_read hwritten
    rw [htext hread] at hrange
    refine ⟨⟨range, hrange⟩, ?_⟩
    simp [ofVersionText_of_read hrange, admits, htag hread, hadmits]
  · have hkind := ofVersionText_of_not_read hrange
    rw [hs] at hkind
    refine ⟨hkind, ?_⟩
    have hplain : Named.ofTag s = .plain s := by
      unfold Named.ofTag
      split
      · rename_i hread
        exact absurd hread (htags _)
      · rfl
    simp [hkind, admits, hv, hplain]

/-- A tag with all its parts is admitted at any revision, and so is a tag that is no version. -/
theorem admits_ofVersionText_of_release :
    (ofVersionText "v1.2.0-rc.1+b7").admits (.bound ⟨.ofTag "v1.2.0-rc.1+b7", ⟨"a1"⟩⟩) = true ∧
    (ofVersionText "release-2017").admits (.named (.ofTag "release-2017")) = true := by
  constructor
  · have hread : (Tag.read "v1.2.0-rc.1+b7").toOption.map
        (fun tag => (tag.text, tag.version.toText)) = some ("v1.2.0-rc.1+b7", "1.2.0-rc.1+b7") := by
      decide +kernel
    obtain ⟨tag, htag, hparts⟩ := exists_of_map_toOption hread
    obtain ⟨htext, hversion⟩ := Prod.mk.inj hparts
    have hwritten : tag.IsWrittenOut := by
      constructor
      · rw [htext]
        decide +kernel
      · rw [htext, hversion]
        exact .inr (by decide +kernel)
    exact ((admits_ofVersionText (by decide +kernel) rfl).2.1 tag htag hwritten).2
  · have hrange : ∀ range, Range.read "release-2017" ≠ .ok range :=
      ne_ok_of_toOption (by decide +kernel)
    have htag : ∀ tag, Tag.read "release-2017" ≠ .ok tag := ne_ok_of_toOption (by decide +kernel)
    exact ((admits_ofVersionText (by decide +kernel) rfl).2.2 hrange htag).2

/-- A tag `1.x` is a plain tag, but as a version text `1.x` is a range. -/
theorem not_admits_of_wildcard : Text.trimmed "1.x" = "1.x" ∧
    (ofVersionText "1.x").admits (.named (.ofTag "1.x")) = false ∧
    (ofVersionText "1.x").admits (.bound ⟨.ofTag "1.x", ⟨"a1"⟩⟩) = false := by
  decide +kernel

end Constraint

end Depsolve
