import Depsolve.Text.Blank

/-!
# Stretches between separators

The stretches of a text are those of what stands before a separator and those of what stands behind
it (`stretches_append`), so neither the number of separators counts nor white space at the ends, if
white space separates (`stretches_trim`).
-/

namespace Depsolve.Text

variable {sep : Char → Bool} {cs ds : List Char} {c : Char}

@[simp]
theorem stretches_nil : stretches sep [] = [] := rfl

theorem stretches_append (h : sep c = true) :
    stretches sep (cs ++ c :: ds) = stretches sep cs ++ stretches sep ds := by
  simp only [stretches, List.splitOnP_append_cons cs ds h, List.filter_append]

/-- Without separators there is one stretch. -/
theorem stretches_of_forall (h : ∀ c ∈ cs, sep c = false) (hne : cs ≠ []) :
    stretches sep cs = [cs] := by
  rw [stretches, List.splitOnP_eq_singleton h]
  simpa using hne

/-- Separators before a text do not count. -/
theorem stretches_append_of_forall (h : ∀ c ∈ cs, sep c = true) :
    stretches sep (cs ++ ds) = stretches sep ds := by
  induction cs with
  | nil => rfl
  | cons c cs ih =>
    have hc : stretches sep ([] ++ c :: (cs ++ ds)) =
        stretches sep [] ++ stretches sep (cs ++ ds) :=
      stretches_append (h c List.mem_cons_self)
    rw [List.nil_append, stretches_nil, List.nil_append] at hc
    rw [List.cons_append, hc, ih fun c hmem => h c (List.mem_cons_of_mem _ hmem)]

/-- Separators behind a text do not count. -/
theorem stretches_append_of_forall' (h : ∀ c ∈ ds, sep c = true) :
    stretches sep (cs ++ ds) = stretches sep cs := by
  cases ds with
  | nil => rw [List.append_nil]
  | cons d ds =>
    have hds : stretches sep (ds ++ []) = stretches sep [] :=
      stretches_append_of_forall fun c hmem => h c (List.mem_cons_of_mem _ hmem)
    rw [List.append_nil, stretches_nil] at hds
    rw [stretches_append (h d List.mem_cons_self), hds, List.append_nil]

/-- A text with something between separators has a stretch. -/
theorem stretches_ne_nil (hmem : c ∈ cs) (hc : sep c = false) : stretches sep cs ≠ [] := by
  induction cs with
  | nil => exact absurd hmem List.not_mem_nil
  | cons d cs ih =>
    by_cases hd : sep d = true
    · rcases List.mem_cons.1 hmem with rfl | hmem
      · exact absurd hd (Bool.eq_false_iff.1 hc)
      · have hdrop : stretches sep ([d] ++ cs) = stretches sep cs :=
          stretches_append_of_forall (List.forall_mem_singleton.2 hd)
        rw [← List.singleton_append, hdrop]
        exact ih hmem
    · -- the first stretch starts with `d` and goes up to the first separator
      have hfirst : ∀ e ∈ (d :: cs).takeWhile (! sep ·), sep e = false := fun e he => by
        simpa using List.all_eq_true.1 List.all_takeWhile e he
      have hne : (d :: cs).takeWhile (! sep ·) ≠ [] := by simp [hd]
      have hone := stretches_of_forall hfirst hne
      rw [← List.takeWhile_append_dropWhile (p := (! sep ·)) (l := d :: cs)]
      cases hrest : (d :: cs).dropWhile (! sep ·) with
      | nil =>
        rw [List.append_nil, hone]
        exact List.cons_ne_nil _ _
      | cons e rest =>
        have he := List.head?_dropWhile_not (! sep ·) (d :: cs)
        rw [hrest] at he
        rw [stretches_append (by simpa using he), hone]
        exact List.cons_ne_nil _ _

/-- Separators between two texts only part them. -/
theorem stretches_append_append {between : List Char} (hne : between ≠ [])
    (hsep : ∀ c ∈ between, sep c = true) :
    stretches sep (cs ++ between ++ ds) = stretches sep cs ++ stretches sep ds := by
  obtain ⟨c, between, rfl⟩ := List.exists_cons_of_ne_nil hne
  rw [List.append_assoc, List.cons_append, stretches_append (hsep c List.mem_cons_self),
    stretches_append_of_forall fun d hd => hsep d (List.mem_cons_of_mem _ hd)]

/-- The stretches have all the characters that do not separate. -/
theorem flatten_stretches (cs : List Char) : (stretches sep cs).flatten = cs.filter (! sep ·) := by
  have hempty : ∀ parts : List (List Char), (parts.filter (! ·.isEmpty)).flatten =
      parts.flatten := by
    intro parts
    induction parts with
    | nil => rfl
    | cons part parts ih => cases part <;> simp [ih]
  rw [stretches, hempty]
  induction cs with
  | nil => simp
  | cons c cs ih =>
    obtain ⟨first, others, hsplit⟩ := List.exists_cons_of_ne_nil (List.splitOnP_ne_nil sep cs)
    rw [hsplit] at ih
    rw [List.splitOnP_cons_eq_if_modifyHead, hsplit]
    cases hc : sep c <;> simp [← ih, hc]

theorem of_mem_stretches {part : List Char} (h : part ∈ stretches sep cs) :
    part ≠ [] ∧ ∀ c ∈ part, sep c = false := by
  refine ⟨by simpa using (List.mem_filter.1 h).2, fun c hc => ?_⟩
  have hmem := List.mem_flatten_of_mem h hc
  rw [flatten_stretches] at hmem
  simpa using (List.mem_filter.1 hmem).2

/-- A text is its trimmed text with white space around it. -/
theorem exists_trim (cs : List Char) : ∃ front back, cs = front ++ trim cs ++ back ∧
    (∀ c ∈ front, isBlank c = true) ∧ ∀ c ∈ back, isBlank c = true := by
  refine ⟨cs.takeWhile isBlank, ((cs.dropWhile isBlank).reverse.takeWhile isBlank).reverse, ?_,
    List.all_eq_true.1 List.all_takeWhile,
    fun c hc => List.all_eq_true.1 List.all_takeWhile c (List.mem_reverse.1 hc)⟩
  rw [trim, List.append_assoc, ← List.reverse_append, List.takeWhile_append_dropWhile,
    List.reverse_reverse, List.takeWhile_append_dropWhile]

theorem stretches_trim (h : ∀ c, isBlank c = true → sep c = true) :
    stretches sep (trim cs) = stretches sep cs := by
  obtain ⟨front, back, hcs, hfront, hback⟩ := exists_trim cs
  conv =>
    rhs
    rw [hcs]
  rw [stretches_append_of_forall' fun c hc => h c (hback c hc),
    stretches_append_of_forall fun c hc => h c (hfront c hc)]

/-- Stretches with a separator before each but the first are the stretches of the whole. -/
theorem stretches_intercalate {between : List Char} {parts : List (List Char)}
    (hbetween : between ≠ []) (hsep : ∀ c ∈ between, sep c = true)
    (hparts : ∀ part ∈ parts, part ≠ [] ∧ ∀ c ∈ part, sep c = false) :
    stretches sep (between.intercalate parts) = parts := by
  induction parts with
  | nil => rfl
  | cons part parts ih =>
    obtain ⟨hne, hpart⟩ := hparts part List.mem_cons_self
    have ih := ih fun part hmem => hparts part (List.mem_cons_of_mem _ hmem)
    cases parts with
    | nil =>
      rw [List.intercalate_singleton]
      exact stretches_of_forall hpart hne
    | cons next parts =>
      obtain ⟨c, between, rfl⟩ := List.exists_cons_of_ne_nil hbetween
      rw [List.intercalate_cons_cons, List.append_assoc, List.cons_append,
        stretches_append (hsep c List.mem_cons_self), stretches_of_forall hpart hne,
        stretches_append_of_forall fun c hmem => hsep c (List.mem_cons_of_mem _ hmem), ih]
      rfl

/-- What stands between the texts of two lists stands between the two as well. -/
theorem intercalate_append {between : List Char} {texts texts' : List (List Char)}
    (hne : texts ≠ []) (hne' : texts' ≠ []) : between.intercalate (texts ++ texts') =
      between.intercalate texts ++ between ++ between.intercalate texts' := by
  induction texts with
  | nil => exact absurd rfl hne
  | cons text texts ih =>
    cases texts with
    | nil =>
      obtain ⟨next, others, rfl⟩ := List.exists_cons_of_ne_nil hne'
      rw [List.singleton_append, List.intercalate_cons_cons, List.intercalate_singleton]
    | cons next texts =>
      rw [List.cons_append, List.cons_append, List.intercalate_cons_cons, ← List.cons_append,
        ih (List.cons_ne_nil _ _), List.intercalate_cons_cons, List.append_assoc, List.append_assoc]
      simp

end Depsolve.Text
