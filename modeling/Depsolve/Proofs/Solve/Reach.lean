import Depsolve.Solve.Footprint

/-!
# What footprints reach

A footprint is closed under the imports of the packages that it has visited, and it has nothing that
the packages to look at do not lead to. A footprint that fails names a package that they lead to and
that is not there.
-/

namespace Depsolve.PackageTree

variable {t : PackageTree} {place : String → Place} {todo : List String} {f f' : Footprint}
  {package : String}

/-- The imports of a package are in a footprint, each where it belongs. -/
def ImportsIn (t : PackageTree) (place : String → Place) (f : Footprint)
    (package : String) : Prop :=
  ∃ imports, t.imports? package = some imports ∧ ∀ path ∈ imports,
    (place path = .inside → path ∈ f.packages) ∧ (place path = .outside → path ∈ f.external)

/-- A property of packages that imports inside the project hand on. -/
def HandsOn (t : PackageTree) (place : String → Place) (needs : String → Prop) : Prop :=
  ∀ package imports path, needs package → t.imports? package = some imports → path ∈ imports →
    place path = .inside → needs path

theorem walk_nil : t.walk place [] f = .ok f := by
  rw [walk]

theorem walk_cons_met {rest : List String} (h : f.packages.contains package = true) :
    t.walk place (package :: rest) f = t.walk place rest f := by
  rw [walk, dif_pos h]

theorem walk_cons_missing {rest : List String} (h : ¬ f.packages.contains package = true)
    (hi : t.imports? package = none) : t.walk place (package :: rest) f = .error package := by
  rw [walk, dif_neg h]
  split
  · rfl
  · rename_i imports hi'
    rw [hi] at hi'
    simp at hi'

/-- The packages that come to be looked at with a package. -/
def newInside (place : String → Place) (f : Footprint) (package : String)
    (imports : SortedSet String) : List String :=
  imports.toList.filter fun path =>
    place path = .inside && ! (f.packages.insert package).contains path

theorem walk_cons_visit {rest : List String} {imports : SortedSet String}
    (h : ¬ f.packages.contains package = true) (hi : t.imports? package = some imports) :
    t.walk place (package :: rest) f =
      t.walk place ((newInside place f package imports).reverse ++ rest)
        ⟨f.packages.insert package,
          f.external.union (imports.filter fun path => place path = .outside)⟩ := by
  rw [walk, dif_neg h]
  split
  · rename_i hi'
    rw [hi] at hi'
    simp at hi'
  · rename_i imports' hi'
    obtain rfl : imports = imports' := Option.some.inj (hi.symm.trans hi')
    rfl

theorem walk_ok (h : t.walk place todo f = .ok f') :
    (∀ q ∈ f.packages, q ∈ f'.packages) ∧ (∀ i ∈ f.external, i ∈ f'.external) ∧
      (∀ q ∈ todo, q ∈ f'.packages) ∧
        ∀ q ∈ f'.packages, q ∈ f.packages ∨ t.ImportsIn place f' q := by
  -- along the walk: what was met and what leads out only grow
  induction todo, f using walk.induct t place with
  | case1 f =>
    rw [walk_nil] at h
    obtain rfl : f = f' := by simpa using h
    exact ⟨fun _ => id, fun _ => id, by simp, fun _ => .inl⟩
  | case2 f q rest hmet ih =>
    rw [walk_cons_met hmet] at h
    obtain ⟨hp, he, ht, hc⟩ := ih h
    exact ⟨hp, he, List.forall_mem_cons.2 ⟨hp q (SortedSet.contains_iff_mem.1 hmet), ht⟩, hc⟩
  | case3 f q rest hmet hi =>
    rw [walk_cons_missing hmet hi] at h
    simp at h
  | case4 f q rest hmet imports hi met inside outside ih =>
    rw [walk_cons_visit hmet hi] at h
    obtain ⟨hp, he, ht, hc⟩ := ih h
    have hq : q ∈ f'.packages := hp q (SortedSet.mem_insert.2 (.inl rfl))
    refine ⟨fun x hx => hp x (SortedSet.mem_insert.2 (.inr hx)),
      fun i hi => he i (SortedSet.mem_union.2 (.inl hi)),
      List.forall_mem_cons.2 ⟨hq, fun x hx => ht x (List.mem_append_right _ hx)⟩, ?_⟩
    intro x hx
    rcases hc x hx with hx | hx
    -- the package just visited: its imports are met, to be looked at, or lead out
    · rcases SortedSet.mem_insert.1 hx with rfl | hx
      · refine .inr ⟨imports, hi, fun path hpath => ⟨fun hin => ?_, fun hout => ?_⟩⟩
        · by_cases hm : met.contains path = true
          · exact hp path (SortedSet.contains_iff_mem.1 hm)
          · refine ht path
              (List.mem_append_left _ (List.mem_reverse.2 (List.mem_filter.2 ⟨hpath, ?_⟩)))
            simpa [hin] using hm
        · refine he path (SortedSet.mem_union.2 (.inr (SortedSet.mem_filter.2 ⟨hpath, ?_⟩)))
          simpa using hout
      · exact .inl hx
    · exact .inr hx

/-- What leads out of a walk, a package that it has met imports. -/
theorem walk_ok_external (h : t.walk place todo f = .ok f') :
    ∀ i ∈ f'.external, i ∈ f.external ∨ ∃ q ∈ f'.packages, ∃ imports, t.imports? q = some imports ∧
      i ∈ imports ∧ place i = .outside := by
  induction todo, f using walk.induct t place with
  | case1 f =>
    rw [walk_nil] at h
    obtain rfl : f = f' := by simpa using h
    exact fun i hi => .inl hi
  | case2 f q rest hmet ih =>
    rw [walk_cons_met hmet] at h
    exact ih h
  | case3 f q rest hmet hi =>
    rw [walk_cons_missing hmet hi] at h
    simp at h
  | case4 f q rest hmet imports hi met inside outside ih =>
    rw [walk_cons_visit hmet hi] at h
    intro i hmem
    rcases ih h i hmem with hmem | hfound
    · rcases SortedSet.mem_union.1 hmem with hmem | hmem
      · exact .inl hmem
      · obtain ⟨hmem, hout⟩ := SortedSet.mem_filter.1 hmem
        have hq : q ∈ f'.packages := (walk_ok h).1 q (SortedSet.mem_insert.2 (.inl rfl))
        exact .inr ⟨q, hq, imports, hi, hmem, by simpa using hout⟩
    · exact .inr hfound

/-- What a walk has visited, and what leads out of it, is what the packages to look at lead to. -/
theorem walk_ok_needs {needs : String → Prop} (hand : t.HandsOn place needs)
    (htodo : ∀ q ∈ todo, needs q) (h : t.walk place todo f = .ok f') :
    (∀ q ∈ f'.packages, q ∈ f.packages ∨ needs q) ∧
      ∀ i ∈ f'.external, i ∈ f.external ∨ ∃ q imports, needs q ∧ t.imports? q = some imports ∧
        i ∈ imports ∧ place i = .outside := by
  induction todo, f using walk.induct t place with
  | case1 f =>
    rw [walk_nil] at h
    obtain rfl : f = f' := by simpa using h
    exact ⟨fun _ => .inl, fun _ => .inl⟩
  | case2 f q rest hmet ih =>
    rw [walk_cons_met hmet] at h
    exact ih (fun x hx => htodo x (List.mem_cons_of_mem _ hx)) h
  | case3 f q rest hmet hi =>
    rw [walk_cons_missing hmet hi] at h
    simp at h
  | case4 f q rest hmet imports hi met inside outside ih =>
    rw [walk_cons_visit hmet hi] at h
    have hq : needs q := htodo q List.mem_cons_self
    -- what the package imports within the project is needed with it
    have htodo' : ∀ x ∈ inside.reverse ++ rest, needs x := by
      intro x hx
      rcases List.mem_append.1 hx with hx | hx
      · obtain ⟨hx, hin⟩ := List.mem_filter.1 (List.mem_reverse.1 hx)
        exact hand q imports x hq hi hx (by simp_all)
      · exact htodo x (List.mem_cons_of_mem _ hx)
    obtain ⟨hp, he⟩ := ih htodo' h
    refine ⟨fun x hx => ?_, fun i hx => ?_⟩
    · rcases hp x hx with hx | hx
      · rcases SortedSet.mem_insert.1 hx with rfl | hx
        · exact .inr hq
        · exact .inl hx
      · exact .inr hx
    · rcases he i hx with hx | hx
      · rcases SortedSet.mem_union.1 hx with hx | hx
        · exact .inl hx
        · obtain ⟨hx, hout⟩ := SortedSet.mem_filter.1 hx
          exact .inr ⟨q, imports, hq, hi, hx, by simpa using hout⟩
      · exact .inr hx

/-- A walk fails at a package that the packages to look at lead to and that is not there. -/
theorem walk_error_needs {needs : String → Prop} (hand : t.HandsOn place needs)
    (htodo : ∀ q ∈ todo, needs q) (h : t.walk place todo f = .error package) :
    needs package ∧ t.imports? package = none := by
  induction todo, f using walk.induct t place with
  | case1 f =>
    rw [walk_nil] at h
    simp at h
  | case2 f q rest hmet ih =>
    rw [walk_cons_met hmet] at h
    exact ih (fun x hx => htodo x (List.mem_cons_of_mem _ hx)) h
  | case3 f q rest hmet hi =>
    rw [walk_cons_missing hmet hi] at h
    obtain rfl : q = package := by simpa using h
    exact ⟨htodo q List.mem_cons_self, hi⟩
  | case4 f q rest hmet imports hi met inside outside ih =>
    rw [walk_cons_visit hmet hi] at h
    refine ih (fun x hx => ?_) h
    rcases List.mem_append.1 hx with hx | hx
    · obtain ⟨hx, hin⟩ := List.mem_filter.1 (List.mem_reverse.1 hx)
      exact hand q imports x (htodo q List.mem_cons_self) hi hx (by simp_all)
    · exact htodo x (List.mem_cons_of_mem _ hx)

variable {packages known : SortedSet String}

theorem mem_footprint_todo {q : String} :
    q ∈ (packages.diff known).toList.reverse ↔ q ∈ packages ∧ ¬ q ∈ known := by
  rw [List.mem_reverse, SortedSet.mem_toList, SortedSet.mem_diff]

/-- A footprint has the packages and those known before, and the imports of all but these. -/
theorem footprint_ok (h : t.footprint? place packages known = .ok f) :
    (∀ q ∈ known, q ∈ f.packages) ∧ (∀ q ∈ packages, q ∈ f.packages) ∧
      ∀ q ∈ f.packages, q ∈ known ∨ t.ImportsIn place f q := by
  obtain ⟨hp, -, ht, hc⟩ := walk_ok h
  refine ⟨hp, fun q hq => ?_, hc⟩
  by_cases hk : q ∈ known
  · exact hp q hk
  · exact ht q (mem_footprint_todo.2 ⟨hq, hk⟩)

/-- What leads out of a footprint, one of its packages imports. -/
theorem footprint_ok_external (h : t.footprint? place packages known = .ok f) :
    ∀ i ∈ f.external, ∃ q ∈ f.packages, ∃ imports, t.imports? q = some imports ∧ i ∈ imports ∧
      place i = .outside :=
  fun i hi => (walk_ok_external h i hi).resolve_left SortedSet.not_mem_empty

theorem footprint_ok_needs {needs : String → Prop} (hand : t.HandsOn place needs)
    (hpackages : ∀ q ∈ packages, needs q) (h : t.footprint? place packages known = .ok f) :
    (∀ q ∈ f.packages, q ∈ known ∨ needs q) ∧
      ∀ i ∈ f.external, ∃ q imports, needs q ∧ t.imports? q = some imports ∧ i ∈ imports ∧
        place i = .outside := by
  obtain ⟨hp, he⟩ := walk_ok_needs hand (fun q hq => hpackages q (mem_footprint_todo.1 hq).1) h
  exact ⟨hp, fun i hi => (he i hi).resolve_left SortedSet.not_mem_empty⟩

theorem footprint_error_needs {needs : String → Prop} (hand : t.HandsOn place needs)
    (hpackages : ∀ q ∈ packages, needs q)
    (h : t.footprint? place packages known = .error package) :
    needs package ∧ t.imports? package = none :=
  walk_error_needs hand (fun q hq => hpackages q (mem_footprint_todo.1 hq).1) h

end Depsolve.PackageTree
