import Depsolve.Proofs.Graph.Order

/-!
# Cycles and the order of dependencies

The cycles of a graph are the groups of projects that lead to one another and back to themselves
(`SolutionGraph.mem_cycles`). They are found by reachability and the order of dependencies by walks,
which know nothing of each other; `SolutionGraph.tells_after` says that the two agree, whatever
calls the graph was built by.
-/

namespace Depsolve.SolutionGraph

open Relation (ReflTransGen TransGen)

variable {g : SolutionGraph} {x y : String} {group : List String}

/-- What the cycles and the order of dependencies tell about a graph. -/
structure Tells (g : SolutionGraph) : Prop where
  /-- There is an order just if there are no cycles. -/
  isSome_iff : g.dependencyOrder.isSome = true ↔ g.cycles = []
  /-- The order has every project once, the root project included, behind all that it asks for. -/
  order : ∀ order, g.dependencyOrder = some order → order.Nodup ∧ (∀ x, x ∈ order ↔ x ∈ g.roots) ∧
    ∀ x y, g.Leads x y → order.idxOf y < order.idxOf x
  /-- Two projects are in one group just if each leads to the other. -/
  together : ∀ x y, x ≠ y → ((∃ group ∈ g.cycles, x ∈ group ∧ y ∈ group) ↔
    ReflTransGen g.Leads x y ∧ ReflTransGen g.Leads y x)
  /-- A project is a group by itself just if it asks for itself and there is no other that it leads
  to and back from. -/
  alone : ∀ x, [x] ∈ g.cycles ↔ g.Leads x x ∧ ∀ y, ReflTransGen g.Leads x y →
    ReflTransGen g.Leads y x → y = x
  /-- The groups are sorted, and so is each of them. -/
  sorted : g.cycles.Pairwise (· < ·) ∧ ∀ group ∈ g.cycles, group.Pairwise (· < ·)

/-! ## Groups -/

theorem mem_companions :
    y ∈ g.companions x ↔ ReflTransGen g.Leads x y ∧ ReflTransGen g.Leads y x := by
  rw [companions, SortedSet.mem_filter, SortedSet.contains_iff_mem, mem_reach, mem_reach]

theorem companions_eq (h : y ∈ g.companions x) : g.companions y = g.companions x := by
  obtain ⟨hxy, hyx⟩ := mem_companions.1 h
  apply SortedSet.ext
  intro z
  rw [mem_companions, mem_companions]
  exact ⟨fun ⟨hyz, hzy⟩ => ⟨hxy.trans hyz, hzy.trans hyx⟩,
    fun ⟨hxz, hzx⟩ => ⟨hyx.trans hxz, hzx.trans hxy⟩⟩

theorem mem_companions_self (x : String) : x ∈ (g.companions x).toList :=
  mem_companions.2 ⟨.refl, .refl⟩

theorem transGen_of_ne (h : ReflTransGen g.Leads x y) (hne : x ≠ y) : TransGen g.Leads x y :=
  (Relation.reflTransGen_iff_eq_or_transGen.1 h).resolve_left (Ne.symm hne)

/-- A project that is alone in its group has no other companion. -/
theorem eq_of_length_companions (h : (g.companions x).toList.length ≤ 1)
    (hy : y ∈ g.companions x) : y = x := by
  obtain ⟨z, hz⟩ :=
    List.length_eq_one_iff.1 (Nat.le_antisymm h (List.length_pos_of_mem (g.mem_companions_self x)))
  have hx := g.mem_companions_self x
  rw [← SortedSet.mem_toList, hz, List.mem_singleton] at hy
  rw [hz, List.mem_singleton] at hx
  rw [hy, hx]

/-- A project leads back to itself just if it has other companions or asks for itself. -/
theorem transGen_self_iff : TransGen g.Leads x x ↔
    1 < (g.companions x).toList.length ∨ g.asksItself x = true := by
  rw [asksItself, List.contains_iff_mem]
  constructor
  · intro hcycle
    obtain ⟨y, hxy, hyx⟩ := Relation.TransGen.head'_iff.1 hcycle
    by_cases hlength : 1 < (g.companions x).toList.length
    · exact .inl hlength
    · have hy : y = x := eq_of_length_companions (by omega) (mem_companions.2 ⟨.single hxy, hyx⟩)
      exact .inr (hy ▸ hxy)
  · rintro (hlength | hself)
    · have hother : ∃ y ∈ g.companions x, y ≠ x := by
        by_contra hnone
        have hall : ∀ y ∈ (g.companions x).toList, y = x := by simpa using hnone
        have hnodup := (g.companions x).nodup_toList
        rw [List.eq_replicate_of_mem hall, List.nodup_replicate] at hnodup
        omega
      obtain ⟨y, hy, hne⟩ := hother
      obtain ⟨hxy, hyx⟩ := mem_companions.1 hy
      exact (transGen_of_ne hxy (Ne.symm hne)).trans_left hyx
    · exact .single hself

theorem cycleFrom?_eq_some_iff : g.cycleFrom? x = some group ↔
    group = (g.companions x).toList ∧ group.head? = some x ∧ TransGen g.Leads x x := by
  rw [transGen_self_iff]
  constructor
  · intro h
    simp only [cycleFrom?, Option.ite_none_right_eq_some] at h
    obtain ⟨hcond, hgroup⟩ := h
    obtain rfl := Option.some.inj hgroup
    exact ⟨rfl, hcond⟩
  · rintro ⟨rfl, hcond⟩
    exact if_pos hcond

/-- The cycles are the groups of the projects that lead back to themselves. -/
theorem mem_cycles (hg : g.IsSound) :
    group ∈ g.cycles ↔ ∃ x, TransGen g.Leads x x ∧ group = (g.companions x).toList := by
  constructor
  · intro h
    obtain ⟨x, -, hx⟩ := List.mem_filterMap.1 h
    obtain ⟨hgroup, -, hcycle⟩ := cycleFrom?_eq_some_iff.1 hx
    exact ⟨x, hcycle, hgroup⟩
  -- the group is found at its first project
  · rintro ⟨x, hcycle, rfl⟩
    obtain ⟨first, rest, hgroup⟩ :=
      List.exists_cons_of_ne_nil (List.ne_nil_of_mem (g.mem_companions_self x))
    have hfirst : first ∈ g.companions x := by
      rw [← SortedSet.mem_toList, hgroup]
      exact List.mem_cons_self
    obtain ⟨hto, hback⟩ := mem_companions.1 hfirst
    have hcycle' : TransGen g.Leads first first := (hcycle.trans_right hback).trans_left hto
    have hroot : first ∈ g.roots := by
      obtain ⟨y, hleads, -⟩ := Relation.TransGen.head'_iff.1 hcycle'
      exact (hg.mem_of_leads hleads).1
    have hhead : (g.companions x).toList.head? = some first := by rw [hgroup, List.head?_cons]
    rw [← companions_eq hfirst] at hhead ⊢
    exact List.mem_filterMap.2 ⟨first, SortedSet.mem_ofList.2 hroot,
      cycleFrom?_eq_some_iff.2 ⟨rfl, hhead, hcycle'⟩⟩

/-- Groups come in the order of their first projects. -/
theorem cycles_sorted (g : SolutionGraph) : g.cycles.Pairwise (· < ·) := by
  refine List.Pairwise.filterMap _ (fun x y hlt xs hxs ys hys => ?_)
    (SortedSet.ofList g.roots).ascending
  obtain ⟨xs, rfl⟩ := List.head?_eq_some_iff.1 (cycleFrom?_eq_some_iff.1 hxs).2.1
  obtain ⟨ys, rfl⟩ := List.head?_eq_some_iff.1 (cycleFrom?_eq_some_iff.1 hys).2.1
  exact List.cons_lt_cons_iff.2 (.inl hlt)

/-! ## Agreement with the order -/

theorem cycles_eq_nil_iff (hg : g.IsSound) : g.cycles = [] ↔ g.IsAcyclic := by
  rw [List.eq_nil_iff_forall_not_mem]
  constructor
  · exact fun h x hcycle => h _ ((mem_cycles hg).2 ⟨x, hcycle, rfl⟩)
  · intro h group hgroup
    obtain ⟨x, hcycle, -⟩ := (mem_cycles hg).1 hgroup
    exact h x hcycle

theorem exists_mem_cycles_iff (hg : g.IsSound) (hne : x ≠ y) :
    (∃ group ∈ g.cycles, x ∈ group ∧ y ∈ group) ↔
    ReflTransGen g.Leads x y ∧ ReflTransGen g.Leads y x := by
  constructor
  · rintro ⟨group, hgroup, hx, hy⟩
    obtain ⟨z, -, rfl⟩ := (mem_cycles hg).1 hgroup
    obtain ⟨hzx, hxz⟩ := mem_companions.1 hx
    obtain ⟨hzy, hyz⟩ := mem_companions.1 hy
    exact ⟨hxz.trans hzy, hyz.trans hzx⟩
  · intro h
    have hcycle : TransGen g.Leads x x := (transGen_of_ne h.1 hne).trans_left h.2
    exact ⟨_, (mem_cycles hg).2 ⟨x, hcycle, rfl⟩, g.mem_companions_self x, mem_companions.2 h⟩

theorem singleton_mem_cycles_iff (hg : g.IsSound) : [x] ∈ g.cycles ↔
    g.Leads x x ∧ ∀ y, ReflTransGen g.Leads x y → ReflTransGen g.Leads y x → y = x := by
  constructor
  · intro h
    obtain ⟨z, hcycle, hgroup⟩ := (mem_cycles hg).1 h
    obtain rfl : z = x := List.mem_singleton.1 (hgroup ▸ g.mem_companions_self z)
    have hlength : (g.companions z).toList.length = 1 := by rw [← hgroup, List.length_singleton]
    have hself := (transGen_self_iff.1 hcycle).resolve_left (by omega)
    exact ⟨List.contains_iff_mem.1 hself,
      fun y hzy hyz => eq_of_length_companions (by omega) (mem_companions.2 ⟨hzy, hyz⟩)⟩
  · rintro ⟨hself, hothers⟩
    refine (mem_cycles hg).2 ⟨x, .single hself, ?_⟩
    have hall : ∀ y ∈ (g.companions x).toList, y = x := fun y hy =>
      hothers y (mem_companions.1 hy).1 (mem_companions.1 hy).2
    have hone : (g.companions x).toList.Perm [x] := by
      apply (List.perm_ext_iff_of_nodup (g.companions x).nodup_toList (List.nodup_singleton x)).2
      intro y
      rw [List.mem_singleton]
      exact ⟨hall y, fun h => h ▸ g.mem_companions_self x⟩
    exact (List.perm_singleton.1 hone).symm

theorem IsSound.tells (hg : g.IsSound) : g.Tells where
  isSome_iff := by
    rw [cycles_eq_nil_iff hg, Option.isSome_iff_exists]
    constructor
    · rintro ⟨order, horder⟩
      exact ((dependencyOrder_eq_some_iff hg).1 horder).1
    · exact fun hacyclic => ⟨_, (dependencyOrder_eq_some_iff hg).2 ⟨hacyclic, rfl⟩⟩
  order order horder := by
    obtain ⟨hacyclic, rfl⟩ := (dependencyOrder_eq_some_iff hg).1 horder
    have hperm := (finishOrder_perm hg hacyclic).1
    exact ⟨hperm.nodup_iff.2 hg.nodup, fun x => hperm.mem_iff,
      fun x y => idxOf_finishOrder_lt hg hacyclic⟩
  together x y hne := exists_mem_cycles_iff hg hne
  alone x := singleton_mem_cycles_iff hg
  sorted := by
    refine ⟨g.cycles_sorted, fun group hgroup => ?_⟩
    obtain ⟨x, -, rfl⟩ := (mem_cycles hg).1 hgroup
    exact (g.companions x).ascending

/-- Whatever calls a graph was built by, its cycles and its order agree. Its projects and
dependencies are those of the calls; a dependency that is refused, since one of its ends is missing,
and one that was added before leave the graph as it is. -/
theorem tells_after (root : String) (calls : List GraphCall) : (after root calls).Tells ∧
    (∀ x, x ∈ (after root calls).roots ↔ x = root ∨ ∃ version, .project x version ∈ calls) ∧
    (∀ x y, (after root calls).Leads x y ↔ ∃ constraint before later,
      calls = before ++ .dependency x y constraint :: later ∧
        x ∈ (after root before).roots ∧ y ∈ (after root before).roots) ∧
    (∀ x y constraint, (∃ missing, (after root calls).addDependency x y constraint =
      .error missing) ↔ x ∉ (after root calls).roots ∨ y ∉ (after root calls).roots) ∧
    (∀ x y constraint missing, (after root calls).addDependency x y constraint = .error missing →
      after root (calls ++ [.dependency x y constraint]) = after root calls) ∧
    ∀ x y constraint before later, calls = before ++ .dependency x y constraint :: later →
      x ∈ (after root before).roots → y ∈ (after root before).roots →
        (after root calls).addDependency x y constraint = .ok (after root calls) := by
  have hsound := isSound_after root calls
  refine ⟨hsound.tells, fun x => mem_roots_after, fun x y => ?_,
    fun x y constraint => exists_addDependency_error_iff, fun x y constraint missing hmissing => ?_,
    fun x y constraint before later heq hx hy => ?_⟩
  · rw [leads_iff]
    exact exists_congr fun constraint => mem_edges_after
  · rw [after_append, List.foldl_cons, List.foldl_nil, answer, hmissing]
    rfl
  · have he : ⟨x, y, constraint⟩ ∈ (after root calls).edges :=
      mem_edges_after.2 ⟨before, later, heq, hx, hy⟩
    exact addDependency_of_mem (hsound.source_mem _ he) (hsound.target_mem _ he) he

/-- A project that asks for itself is a cycle beside that of two which ask for one another. -/
example : let v := Version.revision ⟨"r1"⟩
    (after "app" [.project "b" v, .project "a" v, .dependency "a" "b" .any,
      .dependency "b" "a" .any, .dependency "app" "app" .any,
      .dependency "app" "missing" .any]).cycles = [["a", "b"], ["app"]] := by
  decide +kernel

end Depsolve.SolutionGraph
