import Depsolve.Proofs.Import.Outcome
import Depsolve.Proofs.Version.Order

/-!
# What hints and revisions stand for

Which constraint a hint gives (`constraintOfHint_cases`), and which version is locked for a pinned
revision: one of the listed versions at the revision if there is any, else the branch that the
constraint asks for if it is listed, else the revision itself (`versionAt_cases`).
-/

namespace Depsolve

variable {listed : List Bound} {constraint : Option Constraint} {r : Revision}

theorem mem_of_pickPinned {candidates : List Bound} {b : Bound}
    (h : pickPinned constraint candidates = some b) : b ∈ candidates := by
  simp only [pickPinned, Option.orElse_eq_orElse, Option.orElse_eq_or, Option.or_eq_some_iff] at h
  rcases h with h | ⟨-, h⟩
  · exact (List.mem_filter.1 (mem_of_firstMin? h)).1
  · exact List.mem_of_head? h

theorem pickPinned_eq_none_iff {candidates : List Bound} :
    pickPinned constraint candidates = none ↔ candidates = [] := by
  constructor
  · intro h
    simp only [pickPinned, Option.orElse_eq_orElse, Option.orElse_eq_or, Option.or_eq_none_iff] at h
    exact List.head?_eq_none_iff.1 h.2
  · rintro rfl
    rfl

/-- The branch that is found has the name, and is listed. -/
theorem exists_of_listedBranch? {name : String} {n : Named}
    (h : listedBranch? listed name = some n) :
    ∃ isDefault, n = .branch name isDefault ∧ ∃ b ∈ listed, b.named = n := by
  have hmem := List.mem_of_find?_eq_some h
  have hname := List.find?_some h
  cases n with
  | branch name' isDefault =>
    exact ⟨isDefault, by rw [of_decide_eq_true hname], List.mem_map.1 hmem⟩
  | plain _ => exact nomatch hname
  | semver _ => exact nomatch hname

/-- What is locked for a revision. -/
theorem versionAt_cases (listed : List Bound) (constraint : Option Constraint) (r : Revision) :
    (∃ b ∈ listed, b.revision = r ∧ versionAt listed constraint r = .bound b) ∨
    (∀ b ∈ listed, b.revision ≠ r) ∧
      ((∃ name n, constraint.bind Constraint.branch? = some name ∧
        listedBranch? listed name = some n ∧
          versionAt listed constraint r = .named n) ∨
        versionAt listed constraint r = .revision r) := by
  generalize hcandidates : listed.filter (·.revision = r) = candidates
  have hmem : ∀ b ∈ candidates, b ∈ listed ∧ b.revision = r := fun b hb =>
    (List.mem_filter.1 (hcandidates ▸ hb)).imp_right of_decide_eq_true
  unfold versionAt
  rw [hcandidates]
  match candidates with
  | [] =>
    refine .inr ⟨fun b hb hr => ?_, ?_⟩
    · have : b ∈ listed.filter (·.revision = r) := List.mem_filter.2 ⟨hb, decide_eq_true hr⟩
      rw [hcandidates] at this
      exact List.not_mem_nil this
    · dsimp only
      rw [pickPinned_eq_none_iff.2 rfl]
      dsimp only
      split
      · rename_i n hn
        obtain ⟨name, hname, hfound⟩ := Option.bind_eq_some_iff.1 hn
        exact .inl ⟨name, n, hname, hfound, rfl⟩
      · exact .inr rfl
  | [only] =>
    exact .inl ⟨only, (hmem only List.mem_cons_self).1, (hmem only List.mem_cons_self).2, rfl⟩
  | first :: second :: rest =>
    dsimp only
    cases hpick : pickPinned constraint (first :: second :: rest) with
    | none => exact absurd (pickPinned_eq_none_iff.1 hpick) (List.cons_ne_nil _ _)
    | some b =>
      obtain ⟨hb, hr⟩ := hmem b (mem_of_pickPinned hpick)
      exact .inl ⟨b, hb, hr, rfl⟩

variable {u : Universe} {p : Project}

theorem pinnedVersion_ok_iff {v : Version} :
    (pinnedVersion u.source p constraint r).outcome = .ok v ↔
      ∃ listed, u.versions p = .ok listed ∧ versionAt listed constraint r = v := by
  have hversions : u.source.versions p = answer (u.versions p) := rfl
  unfold pinnedVersion
  rw [hversions, Ask.outcome_bind_eq_ok_iff, Ask.outcome_answer]
  cases u.versions p <;> simp [Except.mapError]

/-- A hint is a semver tag, or looks like a range and is one, or names a branch or a plain tag. -/
theorem constraintOfHint_cases {hint : String} {c : Constraint}
    (h : (constraintOfHint u.source p hint).outcome = .ok c) :
    (∃ tag, Tag.read hint = .ok tag ∧ c = .semver (.caret tag)) ∨
    (∃ range, looksLikeRange hint = true ∧ Range.read hint = .ok range ∧ c = .semver range) ∨
    looksLikeRange hint = false ∧ (c = .branch hint ∨ c = .plain hint) := by
  unfold constraintOfHint at h
  split at h
  · rename_i tag htag
    exact .inl ⟨tag, htag, (Except.ok.inj h).symm⟩
  · split at h
    · rename_i hlooks
      split at h
      · rename_i range hrange
        exact .inr (.inl ⟨range, hlooks, hrange, (Except.ok.inj h).symm⟩)
      · exact nomatch h
    · rename_i hlooks
      obtain ⟨listed, -, h⟩ := Ask.outcome_bind_eq_ok_iff.1 h
      obtain rfl := Except.ok.inj h
      refine .inr (.inr ⟨Bool.eq_false_iff.2 hlooks, ?_⟩)
      split
      · exact .inl rfl
      · exact .inr rfl

/-- A hint asks for no branch but the one that it names. -/
theorem eq_of_branch?_constraintOfHint {hint name : String} {c : Constraint}
    (h : (constraintOfHint u.source p hint).outcome = .ok c) (hbranch : c.branch? = some name) :
    name = hint := by
  rcases constraintOfHint_cases h with ⟨_, -, rfl⟩ | ⟨_, -, -, rfl⟩ | ⟨-, rfl | rfl⟩
  · exact nomatch hbranch
  · exact nomatch hbranch
  · exact (Option.some.inj hbranch).symm
  · exact nomatch hbranch

end Depsolve
