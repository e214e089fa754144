import Depsolve.Proofs.Constraint.Naming
import Depsolve.Proofs.Import.Order
import Depsolve.Proofs.Import.Policy

/-!
# The policy for hints

`HintPolicy` says what a hint is to stand for: a semver tag for the versions compatible with it,
a range for itself, the name of a listed branch for the branch, and only what is none of these
for a plain tag.

A hint is read as a range only if it looks like one, so a range that does not look like one is
hidden, and taken for a plain tag. The policy is kept to just for the other hints. What looks like a
range is never a tag (`looksLikeRange_of_tag`), and a range that is hidden has a comma, a wildcard
or an operator behind a `v` (`HidesRange.isMarked`).
-/

namespace Depsolve

open Semver (isSegmentChar StopsAt)

variable {cs pattern : List Char} {c : Char} {hint : String} {listed : List Bound}

/-! ## What looks like a range -/

theorem hasWithin_iff : hasWithin pattern cs = true ↔ pattern <:+: cs := by
  induction cs with
  | nil => rw [hasWithin, List.isEmpty_iff, List.infix_nil]
  | cons c cs ih =>
    rw [hasWithin, Bool.or_eq_true, List.isPrefixOf_iff_prefix, ih, List.infix_cons_iff]

theorem mem_of_hasWithin (h : hasWithin (c :: pattern) cs = true) : c ∈ cs :=
  (hasWithin_iff.1 h).subset List.mem_cons_self

theorem splitBars_of_hasWithin (h : hasWithin ['|', '|'] cs = false) : Range.splitBars cs = [cs] :=
  Range.splitBars_of_no_bars fun hbars => Bool.false_ne_true (h.symm.trans (hasWithin_iff.2 hbars))

/-- The characters of a tag are those of segments, dots and plus signs. -/
theorem Tag.forall_mem_text (tag : Tag) :
    ∀ c ∈ tag.text.toList, isSegmentChar c = true ∨ c = '.' ∨ c = '+' :=
  Semver.forall_mem_of_dropV (by decide) (by decide)
    (tag.spells.forall_mem (.inr (.inl rfl)) (.inr (.inr rfl)) fun _ => .inl)

theorem looksLikeRange_eq_false_iff : looksLikeRange hint = false ↔
    StopsAt Range.isOpChar hint.toList ∧ StopsAt (· == '*') hint.toList ∧
      hasWithin ['|', '|'] hint.toList = false ∧ hasWithin [' ', '-', ' '] hint.toList = false ∧
      (Text.stretches Text.isBlank hint.toList).length ≤ 1 := by
  unfold looksLikeRange StopsAt Range.isOpChar
  dsimp only
  cases hint.toList.head? with
  | none => simp [and_assoc]
  | some c => simp [and_assoc, and_left_comm]

/-- A tag does not look like a range. -/
theorem looksLikeRange_of_tag (tag : Tag) : looksLikeRange tag.text = false := by
  have hne : ∀ c : Char, isSegmentChar c = false → c ≠ '.' → c ≠ '+' → c ∉ tag.text.toList := by
    intro c hsegment hdot hplus hmem
    rcases tag.forall_mem_text c hmem with h | h | h
    · exact absurd (h.symm.trans hsegment) Bool.true_eq_false.mp
    · exact hdot h
    · exact hplus h
  have hwithin : ∀ {c : Char} {pattern : List Char}, c ∉ tag.text.toList →
      hasWithin (c :: pattern) tag.text.toList = false := fun hc =>
    Bool.eq_false_iff.2 fun h => hc (mem_of_hasWithin h)
  have hblank : ∀ c ∈ tag.text.toList, Text.isBlank c = false := by
    intro c hc
    rcases tag.forall_mem_text c hc with h | rfl | rfl
    · exact Range.isBlank_of_isSegmentChar h
    · decide
    · decide
  rw [looksLikeRange_eq_false_iff]
  refine ⟨tag.stopsAt_isOpChar, fun c hc => beq_eq_false_iff_ne.2 ?_,
    hwithin (hne '|' (by decide) (by decide) (by decide)),
    hwithin (hne ' ' (by decide) (by decide) (by decide)), ?_⟩
  · rintro rfl
    exact hne '*' (by decide) (by decide) (by decide) (List.mem_of_mem_head? hc)
  · by_cases hnil : tag.text.toList = []
    · rw [hnil]
      decide
    · rw [Text.stretches_of_forall hblank hnil]
      exact Nat.le_refl 1

/-! ## The policy -/

/-- A name is that of a listed branch. -/
def IsListedBranch (listed : List Bound) (name : String) : Prop :=
  ∃ b ∈ listed, ∃ isDefault, b.named = .branch name isDefault

/-- How a hint of a project is to be taken, if `listed` are its versions. -/
structure HintPolicy (root : String) (listed : List Bound) (hint : String)
    (outcome : Except Fault Constraint) : Prop where
  /-- A semver tag asks for compatible versions. -/
  tag : ∀ tag, Tag.read hint = .ok tag → outcome = .ok (.semver (.caret tag))
  range : (∀ tag, Tag.read hint ≠ .ok tag) → ¬ IsListedBranch listed hint →
    ∀ range, Range.read hint = .ok range → outcome = .ok (.semver range)
  branch : (∀ tag, Tag.read hint ≠ .ok tag) → IsListedBranch listed hint →
    looksLikeRange hint = false → outcome = .ok (.branch hint)
  /-- What looks like a range has to be one. -/
  fault : looksLikeRange hint = true → ∀ e, Range.read hint = .error e →
    outcome = .error (.conversion (.invalidHint root hint e))
  /-- A plain tag is what is nothing else. -/
  plain : ∀ text, outcome = .ok (.plain text) → text = hint ∧ (∀ tag, Tag.read hint ≠ .ok tag) ∧
    (∀ range, Range.read hint ≠ .ok range) ∧ ¬ IsListedBranch listed hint

/-- A hint is a range, and neither looks like one nor is anything else. -/
structure HidesRange (listed : List Bound) (hint : String) : Prop where
  range : ∃ range, Range.read hint = .ok range
  tag : ∀ tag, Tag.read hint ≠ .ok tag
  looks : looksLikeRange hint = false
  branch : ¬ IsListedBranch listed hint

/-- A hidden range is one word with a comma, a wildcard or an operator behind a `v`. -/
theorem HidesRange.isMarked (h : HidesRange listed hint) (htrim : Text.trimmed hint = hint) :
    Range.IsMarked hint.toList := by
  obtain ⟨hop, -, hbars, -, hone⟩ := looksLikeRange_eq_false_iff.1 h.looks
  obtain ⟨range, hrange⟩ := h.range
  exact Range.isMarked_of_read h.tag htrim
    (Text.isBlank_of_one_stretch (Text.trim_of_trimmed htrim) hone)
    (splitBars_of_hasWithin hbars) hop hrange

theorem isSome_listedBranch?_iff {name : String} :
    (listedBranch? listed name).isSome = true ↔ IsListedBranch listed name := by
  constructor
  · intro h
    obtain ⟨n, hn⟩ := Option.isSome_iff_exists.1 h
    obtain ⟨isDefault, rfl, b, hb, hnamed⟩ := exists_of_listedBranch? hn
    exact ⟨b, hb, isDefault, hnamed⟩
  · rintro ⟨b, hb, isDefault, hnamed⟩
    by_contra hnone
    have hnone : listedBranch? listed name = none := by simpa using hnone
    unfold listedBranch? at hnone
    have hfound := List.find?_eq_none.1 hnone b.named (List.mem_map_of_mem hb)
    rw [hnamed] at hfound
    exact hfound (decide_eq_true rfl)

/-! ## Lookups -/

section Lookups

variable {u : Universe} {p : Project}

theorem constraintOfHint_of_tag {σ : Type} {source : Source σ} {tag : Tag}
    (h : Tag.read hint = .ok tag) :
    constraintOfHint source p hint = pure (.semver (.caret tag)) := by
  unfold constraintOfHint
  rw [h]

theorem outcome_of_looksLikeRange (htags : ∀ tag, Tag.read hint ≠ .ok tag)
    (hlooks : looksLikeRange hint = true) :
    (constraintOfHint u.source p hint).outcome =
      ((Range.read hint).map Constraint.semver).mapError fun e =>
        .conversion (.invalidHint p.root hint e) := by
  unfold constraintOfHint
  split
  · rename_i hread
    exact absurd hread (htags _)
  · rw [if_pos hlooks]
    cases Range.read hint <;> rfl

theorem outcome_of_not_looksLikeRange (hlisted : u.versions p = .ok listed)
    (htags : ∀ tag, Tag.read hint ≠ .ok tag) (hlooks : looksLikeRange hint = false) :
    (constraintOfHint u.source p hint).outcome =
      .ok (if (listedBranch? listed hint).isSome then .branch hint else .plain hint) := by
  have hversions : u.source.versions p = answer (u.versions p) := rfl
  unfold constraintOfHint
  split
  · rename_i hread
    exact absurd hread (htags _)
  · rw [hlooks, if_neg Bool.false_ne_true, hversions, Ask.outcome_bind, Ask.outcome_answer, hlisted]
    rfl

/-- A hidden range is taken for a plain tag. -/
theorem HidesRange.outcome (hlisted : u.versions p = .ok listed) (h : HidesRange listed hint) :
    (constraintOfHint u.source p hint).outcome = .ok (.plain hint) := by
  rw [outcome_of_not_looksLikeRange hlisted h.tag h.looks,
    if_neg fun hsome => h.branch (isSome_listedBranch?_iff.1 hsome)]

theorem hintPolicy_of_tag (htrim : Text.trimmed hint = hint) {tag : Tag}
    (htag : Tag.read hint = .ok tag) :
    HintPolicy p.root listed hint (constraintOfHint u.source p hint).outcome := by
  have houtcome : (constraintOfHint u.source p hint).outcome = .ok (.semver (.caret tag)) := by
    rw [constraintOfHint_of_tag htag]
    rfl
  have hlooks : looksLikeRange hint = false := by
    rw [← htrim, ← Tag.text_of_read htag]
    exact looksLikeRange_of_tag tag
  rw [houtcome]
  constructor
  case tag =>
    intro tag' htag'
    rw [Except.ok.inj (htag.symm.trans htag')]
  case range => exact fun hnone => absurd htag (hnone tag)
  case branch => exact fun hnone => absurd htag (hnone tag)
  case fault => exact fun hnot => absurd hnot (Bool.eq_false_iff.1 hlooks)
  case plain => exact fun text htext => nomatch htext

theorem hintPolicy_of_looksLikeRange (htags : ∀ tag, Tag.read hint ≠ .ok tag)
    (hlooks : looksLikeRange hint = true) :
    HintPolicy p.root listed hint (constraintOfHint u.source p hint).outcome := by
  rw [outcome_of_looksLikeRange htags hlooks]
  constructor
  case tag => exact fun tag htag => absurd htag (htags tag)
  case range =>
    intro _ _ range hrange
    rw [hrange]
    rfl
  case branch => exact fun _ _ hnot => absurd hlooks (Bool.eq_false_iff.1 hnot)
  case fault =>
    intro _ e he
    rw [he]
    rfl
  case plain =>
    intro text htext
    obtain ⟨range, -, hplain⟩ := map_eq_ok_iff.1 (mapError_eq_ok_iff.1 htext)
    cases hplain

/-- A hint that does not look like a range is the name of a branch or a plain tag, unless it
hides a range. -/
theorem hintPolicy_of_name (hlisted : u.versions p = .ok listed)
    (htags : ∀ tag, Tag.read hint ≠ .ok tag) (hlooks : looksLikeRange hint = false)
    (h : ¬ HidesRange listed hint) :
    HintPolicy p.root listed hint (constraintOfHint u.source p hint).outcome := by
  have hhidden : ∀ range, Range.read hint = .ok range → IsListedBranch listed hint := by
    intro range hrange
    by_contra hbranch
    exact h ⟨⟨range, hrange⟩, htags, hlooks, hbranch⟩
  rw [outcome_of_not_looksLikeRange hlisted htags hlooks]
  constructor
  case tag => exact fun tag htag => absurd htag (htags tag)
  case range => exact fun _ hbranch range hrange => absurd (hhidden range hrange) hbranch
  case branch =>
    intro _ hbranch _
    rw [if_pos (isSome_listedBranch?_iff.2 hbranch)]
  case fault => exact fun hnot => absurd hnot (Bool.eq_false_iff.1 hlooks)
  case plain =>
    intro text htext
    by_cases hbranch : IsListedBranch listed hint
    · rw [if_pos (isSome_listedBranch?_iff.2 hbranch)] at htext
      cases htext
    · rw [if_neg fun hsome => hbranch (isSome_listedBranch?_iff.1 hsome)] at htext
      obtain rfl := Constraint.plain.inj (Except.ok.inj htext)
      exact ⟨rfl, htags, fun range hrange => hbranch (hhidden range hrange), hbranch⟩

/-- A hint that hides no range is taken for what it is. -/
theorem hintPolicy (hlisted : u.versions p = .ok listed) (htrim : Text.trimmed hint = hint)
    (h : ¬ HidesRange listed hint) :
    HintPolicy p.root listed hint (constraintOfHint u.source p hint).outcome := by
  by_cases htags : ∀ tag, Tag.read hint ≠ .ok tag
  · by_cases hlooks : looksLikeRange hint = true
    · exact hintPolicy_of_looksLikeRange htags hlooks
    · exact hintPolicy_of_name hlisted htags (Bool.eq_false_iff.2 hlooks) h
  · obtain ⟨tag, htag⟩ := not_forall_not.1 htags
    exact hintPolicy_of_tag htrim htag

end Lookups

/-- In a session that nobody cancels, a hint for a project whose versions can be listed keeps to the
policy just if it hides no range. A hidden range is taken for a plain tag, and has a comma, a
wildcard or an operator behind a `v`. -/
theorem Session.constraintOfHint_policy {u : Universe} {s : Session} {p : Project}
    (hs : s.Serves u True) (hlisted : u.versions p = .ok listed)
    (htrim : Text.trimmed hint = hint) :
    (HintPolicy p.root listed hint ((constraintOfHint source p hint).run.run s).1 ↔
      ¬ HidesRange listed hint) ∧
    (HidesRange listed hint →
      ((constraintOfHint source p hint).run.run s).1 = .ok (.plain hint) ∧
      Range.IsMarked hint.toList) := by
  have hrun : ((constraintOfHint source p hint).run.run s).1 =
      (constraintOfHint u.source p hint).outcome := by
    rcases constraintOfHint_follows p hint s hs with ⟨hn, -⟩ | ⟨heq, -⟩
    · exact absurd trivial hn
    · exact heq
  rw [hrun]
  refine ⟨⟨fun hpolicy hhidden => ?_, hintPolicy hlisted htrim⟩, fun hhidden =>
    ⟨hhidden.outcome hlisted, hhidden.isMarked htrim⟩⟩
  obtain ⟨range, hrange⟩ := hhidden.range
  obtain ⟨-, -, hnone, -⟩ := hpolicy.plain hint (hhidden.outcome hlisted)
  exact hnone range hrange

theorem Session.constraintOfHint_policy_of_interval :
    (start (.new .withReleases)).Serves .withReleases True ∧ Text.trimmed ">=1.0 <2" = ">=1.0 <2" ∧
    ∃ listed, Universe.withReleases.versions ⟨"example.com/tool", none⟩ = .ok listed ∧
      HintPolicy "example.com/tool" listed ">=1.0 <2"
        ((constraintOfHint source ⟨"example.com/tool", none⟩
        ">=1.0 <2").run.run (start (.new .withReleases))).1 := by
  have htrim : Text.trimmed ">=1.0 <2" = ">=1.0 <2" := by decide +kernel
  have hnames : (Universe.withReleases.versions ⟨"example.com/tool", none⟩).toOption.map
      (fun listed => listed.map (·.named.name)) = some ["v1.2.0", "main"] := by
    decide +kernel
  obtain ⟨listed, hlisted, -⟩ := exists_of_map_toOption hnames
  have hlooks : looksLikeRange ">=1.0 <2" = true := by decide +kernel
  have hpolicy := (constraintOfHint_policy serves_withReleases hlisted htrim).1
  exact ⟨serves_withReleases, htrim, listed, hlisted,
    hpolicy.2 fun hhidden => absurd hlooks (Bool.eq_false_iff.1 hhidden.looks)⟩

/-- A wildcard hides a range. -/
theorem Session.constraintOfHint_hides_wildcard :
    (start (.new .withReleases)).Serves .withReleases True ∧
    ∃ listed range, Universe.withReleases.versions ⟨"example.com/tool", none⟩ = .ok listed ∧
      (∀ tag, Tag.read "1.x" ≠ .ok tag) ∧ Range.read "1.x" = .ok range ∧
      ¬ IsListedBranch listed "1.x" ∧
      ((constraintOfHint source ⟨"example.com/tool", none⟩ "1.x").run.run
        (start (.new .withReleases))).1.toOption = some (.plain "1.x") := by
  have hnames : (Universe.withReleases.versions ⟨"example.com/tool", none⟩).toOption.map
      (fun listed => (listedBranch? listed "1.x").isSome) = some false := by
    decide +kernel
  have htext : (Range.read "1.x").toOption.map Range.toText = some "1.*" := by decide +kernel
  obtain ⟨listed, hlisted, hbranch⟩ := exists_of_map_toOption hnames
  obtain ⟨range, hrange, -⟩ := exists_of_map_toOption htext
  refine ⟨serves_withReleases, listed, range, hlisted, ne_ok_of_toOption (by decide +kernel),
    hrange, ?_, by decide +kernel⟩
  rw [← isSome_listedBranch?_iff, hbranch]
  exact Bool.false_ne_true

end Depsolve
