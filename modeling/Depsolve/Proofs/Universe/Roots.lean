import Depsolve.Proofs.Universe.Answers

/-!
# The roots that own paths

A path is owned by the longest root that covers it. Of two roots that cover a path, the shorter one
covers the other (`ImportPath.covers_of_covers`), so the owner of a path lies at or below every root
that covers the path (`Universe.exists_rootOf_of_covers`).
-/

namespace Depsolve

namespace Universe

variable {u : Universe} {root path : String}

/-- Neither text is longer than the longer one. -/
theorem exists_longer (before : Option String) (text : String) :
    ∃ best, longer before text = some best ∧ text.utf8ByteSize ≤ best.utf8ByteSize ∧
      ∀ b, before = some b → b.utf8ByteSize ≤ best.utf8ByteSize := by
  unfold longer
  split
  · rename_i b
    split
    · rename_i hle
      exact ⟨text, rfl, Nat.le_refl _, fun _ hb => Option.some.inj hb ▸ hle⟩
    · rename_i hlt
      exact ⟨b, rfl, Nat.le_of_not_le hlt, fun _ hb => Option.some.inj hb ▸ Nat.le_refl _⟩
  · exact ⟨text, rfl, Nat.le_refl _, by simp⟩

theorem exists_longest? {texts : List String} {text : String} (h : text ∈ texts) :
    ∃ best, longest? texts = some best ∧ text.utf8ByteSize ≤ best.utf8ByteSize := by
  -- what is the best so far is never replaced by a shorter text
  have hfold : ∀ (l : List String) (before : Option String) (text : String),
      before = some text ∨ text ∈ l →
        ∃ best, l.foldl longer before = some best ∧ text.utf8ByteSize ≤ best.utf8ByteSize := by
    intro l
    induction l with
    | nil =>
      intro before text htext
      exact ⟨text, htext.resolve_right List.not_mem_nil, Nat.le_refl _⟩
    | cons x l ih =>
      intro before text htext
      obtain ⟨b, hb, hx, hbefore⟩ := exists_longer before x
      rw [List.foldl_cons, hb]
      obtain ⟨best, hbest, hle⟩ := ih (some b) b (.inl rfl)
      rcases htext with hsome | hmem
      · exact ⟨best, hbest, Nat.le_trans (hbefore text hsome) hle⟩
      · rcases List.mem_cons.1 hmem with rfl | hmem
        · exact ⟨best, hbest, Nat.le_trans hx hle⟩
        · exact ih (some b) text (.inr hmem)
  exact hfold texts none text (.inr h)

/-- A path that some root covers has an owner, and no root that covers it is longer. -/
theorem exists_rootOf (h : root ∈ u.owners path) :
    ∃ owner, u.rootOf path = .ok owner ∧ root.utf8ByteSize ≤ owner.utf8ByteSize := by
  obtain ⟨owner, howner, hle⟩ := exists_longest? h
  refine ⟨owner, ?_, hle⟩
  unfold rootOf
  rw [howner]

/-- A path has no owner only if no root covers it. -/
theorem rootOf_eq_error {e : SourceFault} (h : u.rootOf path = .error e) :
    e = .rootUnknown path "no known project contains this path" ∧
      ∀ root ∈ u.projects.keys ++ u.unreachable.toList, ImportPath.covers root path = false := by
  have hnone : ∀ root ∈ u.projects.keys ++ u.unreachable.toList,
      ImportPath.covers root path = false := by
    refine fun root hroot => Bool.eq_false_iff.2 fun hcovers => ?_
    obtain ⟨owner, howner, -⟩ := exists_rootOf (List.mem_filter.2 ⟨hroot, hcovers⟩)
    rw [howner] at h
    simp at h
  unfold rootOf at h
  split at h
  · simp at h
  · exact ⟨(Except.error.inj h).symm, hnone⟩

/-- A path that a root covers is owned by a root at or below that one. -/
theorem exists_rootOf_of_covers (hroot : root ∈ u.projects.keys ++ u.unreachable.toList)
    (hcovers : ImportPath.covers root path = true) :
    ∃ owner, u.rootOf path = .ok owner ∧ ImportPath.covers root owner = true := by
  obtain ⟨owner, howner, hle⟩ := exists_rootOf (List.mem_filter.2 ⟨hroot, hcovers⟩)
  exact ⟨owner, howner, ImportPath.covers_of_covers hcovers (covers_of_rootOf howner) hle⟩

end Universe

end Depsolve
