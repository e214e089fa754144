import Depsolve.Proofs.Solve.Reached

/-!
# Expansions do not nest without end

An expansion starts another only for an import that is new to a project that was decided on. There
are no more of these than import entries in the universe (`Trial.unmet`), so a solver that may nest
deeper than that never runs out of depth.
-/

namespace Depsolve

variable {u : Universe} {problem : Problem} {options : SolveOptions} {limits : Limits}

namespace Universe

/-- The paths that published states import. -/
def importPaths (u : Universe) : List String :=
  u.published.flatMap fun s => s.packages.values.flatMap SortedSet.toList

theorem length_importPaths : u.importPaths.length = u.importCount := rfl

/-- A package of the tree of a state imports what a package of the state imports. -/
theorem mem_values_of_tree {root package path : String} {s : Snapshot} {imports : SortedSet String}
    (hi : (s.tree root).imports? package = some imports) (hp : path ∈ imports) :
    ∃ set ∈ s.packages.values, path ∈ set := by
  -- the tree is the packages inserted one by one; an import comes from one of them or was there
  have hfold : ∀ (l : List (String × SortedSet String)) (tree : PackageTree),
      (l.foldl (fun (tree : PackageTree) (x : String × SortedSet String) =>
        tree.insert (ImportPath.join root x.1) x.2) tree).imports? package = some imports →
      (∃ old, tree.imports? package = some old ∧ path ∈ old) ∨ ∃ x ∈ l, path ∈ x.2 := by
    intro l
    induction l with
    | nil => exact fun tree h => .inl ⟨imports, h, hp⟩
    | cons x l ih =>
      intro tree h
      rcases ih _ h with ⟨old, hold, hmem⟩ | ⟨y, hy, hmem⟩
      · simp only [PackageTree.insert, PackageTree.imports?, SortedMap.get?_insert] at hold
        split at hold
        · rename_i hpackage
          obtain rfl := Option.some.inj hold
          rcases SortedSet.mem_union.1 hmem with hmem | hmem
          · change path ∈ (tree.imports? (ImportPath.join root x.1)).getD .empty at hmem
            cases hold' : tree.imports? (ImportPath.join root x.1) with
            | none =>
              rw [hold'] at hmem
              exact absurd hmem SortedSet.not_mem_empty
            | some old' =>
              rw [hold'] at hmem
              exact .inl ⟨old', by rw [hpackage, hold'], hmem⟩
          · exact .inr ⟨x, List.mem_cons_self, hmem⟩
        · exact .inl ⟨old, hold, hmem⟩
      · exact .inr ⟨y, List.mem_cons_of_mem _ hy, hmem⟩
  rcases hfold _ _ hi with ⟨old, hold, -⟩ | ⟨x, hx, hmem⟩
  · simp [PackageTree.imports?, PackageTree.empty, SortedMap.get?_empty] at hold
  · exact ⟨x.2, List.mem_map.2 ⟨x, hx, rfl⟩, hmem⟩

/-- What a version of a project imports is imported by a published state. -/
theorem mem_importPaths {project : Project} {version : Version} {tree : PackageTree}
    (ht : u.packagesOf project version = .ok tree) {package path : String}
    {imports : SortedSet String} (hi : tree.imports? package = some imports) (hp : path ∈ imports) :
    path ∈ u.importPaths := by
  obtain ⟨s, hs, rfl⟩ := packagesOf_eq_ok_iff.1 ht
  obtain ⟨set, hset, hmem⟩ := mem_values_of_tree hi hp
  exact List.mem_flatMap.2 ⟨s, mem_published_of_snapshot hs, List.mem_flatMap.2 ⟨set, hset, hmem⟩⟩

end Universe

namespace Trial

/-- Whether a path is required of the project that owns it. -/
def knows (u : Universe) (t : Trial) (path : String) : Bool :=
  match u.rootOf path with
  | .ok root => (t.packagesOf root).contains path
  | .error _ => false

/-- The number of import entries with paths that are not required yet. -/
def unmet (u : Universe) (t : Trial) : Nat :=
  (u.importPaths.filter fun path => ! t.knows u path).length

variable {t t' : Trial}

theorem knows_iff {path : String} :
    t.knows u path = true ↔ ∃ root, u.rootOf path = .ok root ∧ path ∈ t.packagesOf root := by
  unfold knows
  split
  · rename_i root hr
    rw [SortedSet.contains_iff_mem]
    exact ⟨fun h => ⟨root, hr, h⟩, fun ⟨root', hr', h⟩ => by
      obtain rfl : root = root' := by simpa [hr] using hr'
      exact h⟩
  · rename_i e he
    simp [he]

/-- With more requirements, no more is unmet. -/
theorem filter_unmet (hsub : ∀ r ∈ t.requirements, r ∈ t'.requirements) :
    (u.importPaths.filter fun path => ! t'.knows u path) =
      (u.importPaths.filter fun path => ! t.knows u path).filter fun path => ! t'.knows u path := by
  rw [List.filter_filter]
  refine List.filter_congr fun path _ => ?_
  cases hk : t.knows u path with
  | false => simp
  | true =>
    obtain ⟨root, hr, hp⟩ := knows_iff.1 hk
    obtain ⟨r, hmem, hroot, hq⟩ := mem_packagesOf.1 hp
    have hk' : t'.knows u path = true :=
      knows_iff.2 ⟨root, hr, mem_packagesOf.2 ⟨r, hsub r hmem, hroot, hq⟩⟩
    simp [hk']

theorem unmet_le (hsub : ∀ r ∈ t.requirements, r ∈ t'.requirements) : t'.unmet u ≤ t.unmet u := by
  unfold unmet
  rw [filter_unmet hsub]
  exact List.length_filter_le ..

theorem unmet_lt (hsub : ∀ r ∈ t.requirements, r ∈ t'.requirements) {path : String}
    (hmem : path ∈ u.importPaths) (hold : ¬ t.knows u path = true) (hnew : t'.knows u path = true) :
    t'.unmet u < t.unmet u := by
  unfold unmet
  rw [filter_unmet hsub, List.length_filter_lt_length_iff_exists]
  exact ⟨path, List.mem_filter.2 ⟨hmem, by simpa using hold⟩, by simpa using hnew⟩

theorem unmet_le_importCount : t.unmet u ≤ u.importCount := by
  rw [← Universe.length_importPaths]
  exact List.length_filter_le ..

end Trial

/-- What a part of an expansion requires of others, published states import. -/
def Task.Imported (u : Universe) : Task → Prop
  | .expand .. => True
  | .requireAll _ _ groups => ∀ target paths, (target, paths) ∈ groups →
      ∀ q ∈ paths, u.rootOf q = .ok target ∧ q ∈ u.importPaths
  | .require _ r => ∀ q ∈ r.packages, u.rootOf q = .ok r.project.root ∧ q ∈ u.importPaths

/-- The depth that is left suffices for what is unmet. -/
def Task.Shallow (u : Universe) (n : Nat) (t : Trial) : Task → Prop
  | .expand .. => t.unmet u < n
  | _ => t.unmet u ≤ n

/-- An expansion that has more depth than there is unmet does not run out of it. -/
theorem Expands.not_exhausted {n : Nat} {task : Task} {t : Trial}
    {res : Except Stop (Except Failure Trial)} (h : Expands u problem n task t res)
    (hfits : task.Fits u t) (himported : task.Imported u) (hshallow : task.Shallow u n t) :
    res ≠ .error .exhausted := by
  induction h with
  | exhausted => exact absurd hshallow (Nat.not_lt_zero _)
  | unanswered => simp [Stop.ofLookup]
  | missing => simp
  | unowned => simp [Stop.ofLookup]
  | @walked n site packages known t tree manifest f groups res hp hm hf hg h ih =>
    refine ih (hfits.walked hg) ?_ ?_
    · intro target paths hgroup q hq
      obtain ⟨hext, hr⟩ := hg.sound hgroup q hq
      have hand : tree.HandsOn (problem.place site.project.root) fun _ => True :=
        fun _ _ _ _ _ _ _ => trivial
      obtain ⟨package, imports, -, hi, hmem, -⟩ :=
        (PackageTree.footprint_ok_needs hand (fun _ _ => trivial) hf).2 q hext
      exact ⟨hr, Universe.mem_importPaths hp hi hmem⟩
    · have hle : (t.requireInternal site (f.packages.diff known)).unmet u ≤ t.unmet u := by
        refine Trial.unmet_le fun r hr => ?_
        unfold Trial.requireInternal
        split
        · exact hr
        · exact Trial.mem_requirements_require.2 (.inl hr)
      have hlt : t.unmet u < n + 1 := hshallow
      exact Nat.le_trans hle (Nat.le_of_lt_succ hlt)
  | done => simp
  | @next n site manifest target packages rest t t1 res h1 h2 ih1 ih2 =>
    have hadds := h1.adds rfl
    have hle : t1.unmet u ≤ t.unmet u := Trial.unmet_le fun r => hadds.mem_requirements hfits.first
    exact ih2 (hfits.rest (hadds.brings hfits.first).1)
      (fun target paths hmem => himported target paths (List.mem_cons_of_mem _ hmem))
      (Nat.le_trans hle hshallow)
  | fails => simp
  | stops h1 ih1 =>
    exact ih1 hfits.first (himported _ _ List.mem_cons_self) hshallow
  | waits => simp
  | disagrees => simp
  | conflicts => simp
  | known => simp
  | fresh => simp
  | freshFails => simp
  -- a new package makes fewer import entries unmet, so there is depth left for it
  | @freshStops n site r t sel q e hs hc hq hn h ih =>
    refine ih (Task.Fits.of_selected? hs) trivial ?_
    obtain ⟨hr, hmem⟩ := himported q hq
    have hlt : (t.require r).unmet u < t.unmet u := by
      refine Trial.unmet_lt (fun r' hr' => Trial.mem_requirements_require.2 (.inl hr')) hmem ?_ ?_
      · rw [Trial.knows_iff]
        rintro ⟨root, hr', hp⟩
        obtain rfl : r.project.root = root := by simpa [hr] using hr'
        exact hn hp
      · exact Trial.knows_iff.2 ⟨_, hr, Trial.mem_packagesOf.2
          ⟨r, Trial.mem_requirements_require.2 (.inr rfl), rfl, hq⟩⟩
    exact Nat.lt_of_lt_of_le hlt hshallow

/-- Why a part of an expansion stops: for lack of depth, or because of a project that was decided
on: a path that a package of it imports belongs to nobody, or there is no answer for it. -/
inductive Task.StopsFor (u : Universe) (problem : Problem) (task : Task) (t : Trial) : Stop → Prop
  | exhausted : Task.StopsFor u problem task t .exhausted
  | unowned {sel : Selected} {package path : String} {e : SourceFault} :
      (task.Fits u t → t.chosen.selected? sel.project.root = some sel) →
      u.Carries sel.project sel.version package path →
      problem.place sel.project.root path = .outside →
      u.rootOf path = .error e → Task.StopsFor u problem task t (.ofLookup e)
  | unanswered {sel : Selected} {e : SourceFault} :
      (task.Fits u t → t.chosen.selected? sel.project.root = some sel) →
      u.packagesOf sel.project sel.version = .error e → Task.StopsFor u problem task t (.ofLookup e)

theorem Task.StopsFor.mono {task task' : Task} {t t' : Trial} {e : Stop}
    (h : task'.StopsFor u problem t' e)
    (hfits : task.Fits u t → task'.Fits u t' ∧ t'.chosen = t.chosen) :
    task.StopsFor u problem t e := by
  have hselected : ∀ {sel : Selected}, (task'.Fits u t' →
      t'.chosen.selected? sel.project.root = some sel) →
      task.Fits u t → t.chosen.selected? sel.project.root = some sel := by
    intro sel hsel hf
    obtain ⟨hf', hchosen⟩ := hfits hf
    rw [← hchosen]
    exact hsel hf'
  cases h with
  | exhausted => exact .exhausted
  | unowned hsel hcarries hplace hroot => exact .unowned (hselected hsel) hcarries hplace hroot
  | unanswered hsel hpackages => exact .unanswered (hselected hsel) hpackages

theorem Expands.stopsFor {n : Nat} {task : Task} {t : Trial}
    {res : Except Stop (Except Failure Trial)} (h : Expands u problem n task t res) {e : Stop}
    (hres : res = .error e) : task.StopsFor u problem t e := by
  induction h with
  | exhausted =>
    obtain rfl := Except.error.inj hres
    exact .exhausted
  | unanswered hp =>
    obtain rfl := Except.error.inj hres
    exact .unanswered (fun hfits => hfits.selected) hp
  | missing => simp at hres
  | unowned hp hf hpath hroot =>
    obtain rfl := Except.error.inj hres
    obtain ⟨q, -, imports, hi, hmem, hplace⟩ := PackageTree.footprint_ok_external hf _ hpath
    exact .unowned (fun hfits => hfits.selected) ⟨_, imports, hp, hi, hmem⟩ hplace hroot
  | walked hp hm hf hg h ih =>
    exact (ih hres).mono fun hfits => ⟨hfits.walked hg, Trial.requireInternal_chosen⟩
  | done => simp at hres
  | next h1 h2 ih1 ih2 =>
    refine (ih2 hres).mono fun hfits => ?_
    have hchosen := ((h1.adds rfl).brings hfits.first).1
    exact ⟨hfits.rest hchosen, hchosen⟩
  | fails => simp at hres
  | stops h1 ih1 => exact (ih1 hres).mono fun hfits => ⟨hfits.first, rfl⟩
  | waits => simp at hres
  | disagrees => simp at hres
  | conflicts => simp at hres
  | known => simp at hres
  | fresh => simp at hres
  | freshFails => simp at hres
  | freshStops hs hc hq hn h ih => exact (ih hres).mono fun _ => ⟨.of_selected? hs, rfl⟩

theorem Solver.attempt_stopsFor {p : PartialSolution} {f : Frame} {v : Version} {e : Stop}
    (h : ((u.solver problem options limits).attempt p f v).outcome = .error e) :
    (Task.expand (p.next f v) (packagesOf (p.requirementsOn f.project.root)) .empty).StopsFor u
      problem (p.trial f v) e := by
  obtain ⟨res, hexp, hres⟩ := attempt_expands u problem options limits p f v
  rw [h] at hres
  rcases res with e' | end?
  · obtain rfl : e = e' := by simpa [Except.map] using hres
    exact hexp.stopsFor rfl
  · simp [Except.map] at hres

/-- An attempt is stopped only by what cannot be looked up, or for lack of depth. -/
theorem Solver.attempt_stop {p : PartialSolution} {f : Frame} {v : Version} {e : Stop}
    (h : ((u.solver problem options limits).attempt p f v).outcome = .error e) :
    e = .exhausted ∨ ∃ e', e = .ofLookup e' := by
  cases attempt_stopsFor h with
  | exhausted => exact .inl rfl
  | unowned => exact .inr ⟨_, rfl⟩
  | unanswered => exact .inr ⟨_, rfl⟩

/-- An attempt of a solver that may nest deep enough does not run out of depth. -/
theorem Solver.attempt_not_exhausted {p : PartialSolution} {f : Frame} {v : Version}
    (hdepth : u.importCount < limits.depth) (hs : p.selected? f.project.root = none) :
    ((u.solver problem options limits).attempt p f v).outcome ≠ .error .exhausted := by
  obtain ⟨res, hexp, hres⟩ := attempt_expands u problem options limits p f v
  have hne := hexp.not_exhausted (attempt_fits hs) trivial
    (Nat.lt_of_le_of_lt Trial.unmet_le_importCount hdepth)
  rw [hres]
  rcases res with e | end?
  · simpa [Except.map] using hne
  · simp [Except.map]

end Depsolve
