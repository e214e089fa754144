import Depsolve.Proofs.Graph.Walk

/-!
# The order of dependencies

Walks back from the nodes that were done last tell whether there is a cycle. If none of them meets a
second node, then whatever asks for a node was seen before it (`IsTraced`), so no path leads back to
where it started. Without cycles, all that asks for a node was done after it, so a walk back from it
has nothing left to meet. Thus `dependencyOrder` gives the order of the walks just if there is no
cycle (`dependencyOrder_eq_some_iff`).
-/

namespace Depsolve.SolutionGraph

open Relation (TransGen)

variable {g : SolutionGraph} {x y : String} {todo seen order : List String} {n : Nat}

theorem length_edges_reversed (g : SolutionGraph) : g.reversed.edges.length = g.edges.length :=
  List.length_map _

theorem leads_reversed : g.reversed.Leads x y ↔ g.Leads y x := by
  rw [leads_iff, leads_iff]
  refine exists_congr fun constraint => ?_
  simp only [reversed, List.mem_map]
  constructor
  · rintro ⟨⟨source, target, constraint'⟩, he, heq⟩
    cases heq
    exact he
  · exact fun he => ⟨⟨y, x, constraint⟩, he, rfl⟩

/-! ## What a walk back sees -/

theorem visit_suffix (g : SolutionGraph) (n : Nat) (todo seen : List String) :
    seen <:+ g.visit n todo seen := by
  induction n generalizing todo seen with
  | zero => exact List.suffix_refl seen
  | succ n ih =>
    cases todo with
    | nil => exact List.suffix_refl seen
    | cons x todo =>
      rw [visit]
      split
      · exact ih todo seen
      · exact (List.suffix_cons x seen).trans (ih _ _)

theorem visit_of_seen (h : ∀ x ∈ todo, x ∈ seen) : g.visit n todo seen = seen := by
  induction n generalizing todo with
  | zero => rfl
  | succ n ih =>
    cases todo with
    | nil => rfl
    | cons x todo =>
      rw [visit, if_pos (List.contains_iff_mem.2 (h x List.mem_cons_self))]
      exact ih fun y hy => h y (List.mem_cons_of_mem _ hy)

/-- What asks for a node was seen before it, if it was not the node itself. -/
def IsTraced (g : SolutionGraph) : List String → Prop
  | [] => True
  | x :: seen => x ∉ seen ∧ (∀ y, g.Leads y x → y ∈ x :: seen) ∧ g.IsTraced seen

theorem IsTraced.mem (h : g.IsTraced seen) (hx : x ∈ seen) (hleads : g.Leads y x) : y ∈ seen := by
  induction seen with
  | nil => exact absurd hx List.not_mem_nil
  | cons z seen ih =>
    rcases List.mem_cons.1 hx with rfl | hx
    · exact h.2.1 y hleads
    · exact List.mem_cons_of_mem _ (ih h.2.2 hx)

theorem IsTraced.idxOf_lt (h : g.IsTraced seen) (hx : x ∈ seen) (hleads : g.Leads y x)
    (hne : y ≠ x) : seen.idxOf x < seen.idxOf y := by
  induction seen with
  | nil => exact absurd hx List.not_mem_nil
  | cons z seen ih =>
    by_cases hz : z = x
    · rw [hz, List.idxOf_cons_self, List.idxOf_cons_ne _ (Ne.symm hne)]
      exact Nat.succ_pos _
    · have hx : x ∈ seen := (List.mem_cons.1 hx).resolve_left (Ne.symm hz)
      have hy : z ≠ y := fun heq => h.1 (heq ▸ h.2.2.mem hx hleads)
      rw [List.idxOf_cons_ne _ hz, List.idxOf_cons_ne _ hy]
      exact Nat.succ_lt_succ (ih h.2.2 hx)

/-- A walk back that meets no second node adds the one that it starts at. -/
theorem IsTraced.visit (h : g.IsTraced seen)
    (hlength : (g.reversed.visit (g.edges.length + 1) [x] seen).length ≤ seen.length + 1) :
    g.IsTraced (g.reversed.visit (g.edges.length + 1) [x] seen) ∧
      x ∈ g.reversed.visit (g.edges.length + 1) [x] seen := by
  by_cases hx : x ∈ seen
  · rw [visit_of_seen fun y hy => List.mem_singleton.1 hy ▸ hx]
    exact ⟨h, hx⟩
  have hbound : [x].length + g.reversed.unseen seen ≤ g.edges.length + 1 := by
    have hedges : g.reversed.unseen seen ≤ g.reversed.edges.length := List.length_filter_le _ _
    rw [length_edges_reversed] at hedges
    rw [List.length_singleton]
    omega
  obtain ⟨hall, hclosed⟩ := visit_closed hbound fun a ha b hb =>
    .inl (h.mem ha (leads_reversed.1 hb))
  have hmem := hall x (.inr List.mem_cons_self)
  obtain ⟨new, hnew⟩ := visit_suffix g.reversed (g.edges.length + 1) [x] seen
  rw [← hnew] at hlength hmem hclosed ⊢
  rw [List.length_append] at hlength
  -- all that is new is the node itself
  have hxnew : x ∈ new := (List.mem_append.1 hmem).resolve_right hx
  obtain ⟨z, rfl⟩ : ∃ z, new = [z] :=
    List.length_eq_one_iff.1 (Nat.le_antisymm (by omega) (List.length_pos_of_mem hxnew))
  obtain rfl := List.mem_singleton.1 hxnew
  exact ⟨⟨hx, fun y hy => hclosed x hmem y (leads_reversed.2 hy), h⟩, hmem⟩

theorem IsTraced.of_meetsOthers (hseen : g.IsTraced seen) (h : g.meetsOthers order seen = false) :
    ∃ all, g.IsTraced all ∧ (∀ x ∈ seen, x ∈ all) ∧ ∀ x ∈ order, x ∈ all := by
  induction order generalizing seen with
  | nil => exact ⟨seen, hseen, fun _ hx => hx, fun _ hx => nomatch hx⟩
  | cons x order ih =>
    rw [meetsOthers, Bool.or_eq_false_iff, decide_eq_false_iff_not, Nat.not_lt] at h
    obtain ⟨hnext, hx⟩ := hseen.visit h.1
    obtain ⟨all, htraced, hkept, horder⟩ := ih hnext h.2
    refine ⟨all, htraced, fun y hy => hkept y ((visit_suffix _ _ _ _).subset hy), ?_⟩
    exact List.forall_mem_cons.2 ⟨hkept x hx, horder⟩

/-! ## Cycles -/

theorem not_asksItself_iff : g.asksItself x = false ↔ ¬ g.Leads x x := by
  rw [asksItself, ← Bool.not_eq_true, List.contains_iff_mem, Leads]

/-- Nodes that do not ask for themselves and have no second node behind them leave no
room for a cycle. -/
theorem isAcyclic_of_meetsOthers (hg : g.IsSound) (hself : ∀ x ∈ g.roots, ¬ g.Leads x x)
    (h : g.meetsOthers g.finishOrder.reverse [] = false) : g.IsAcyclic := by
  have hstart : g.IsTraced [] := trivial
  obtain ⟨all, htraced, -, hall⟩ := hstart.of_meetsOthers h
  have hmem : ∀ x ∈ g.roots, x ∈ all :=
    fun x hx => hall x (List.mem_reverse.2 (mem_finishOrder hg hx))
  have hlt : ∀ x y, TransGen g.Leads x y → all.idxOf y < all.idxOf x := by
    have hone : ∀ x y, g.Leads x y → all.idxOf y < all.idxOf x := by
      intro x y hleads
      obtain ⟨hx, hy⟩ := hg.mem_of_leads hleads
      exact htraced.idxOf_lt (hmem y hy) hleads fun heq => hself x hx (heq ▸ hleads)
    intro x y hpath
    induction hpath with
    | single hleads => exact hone _ _ hleads
    | tail _ hleads ih => exact Nat.lt_trans (hone _ _ hleads) ih
  exact fun x hcycle => Nat.lt_irrefl _ (hlt x x hcycle)

/-- If what asks for a node was seen or comes before it, walks back meet no second node. -/
theorem meetsOthers_eq_false
    (hordered : order.Pairwise fun later earlier => ¬ g.Leads earlier later)
    (hself : ∀ x ∈ order, ¬ g.Leads x x)
    (hasked : ∀ x ∈ order, ∀ y, g.Leads y x → y ∈ seen ∨ y ∈ order) :
    g.meetsOthers order seen = false := by
  induction order generalizing seen with
  | nil => rfl
  | cons x order ih =>
    obtain ⟨hx, hordered⟩ := List.pairwise_cons.1 hordered
    have hpreds : ∀ y, g.Leads y x → y ∈ seen := by
      intro y hy
      refine (hasked x List.mem_cons_self y hy).resolve_right fun hmem => ?_
      rcases List.mem_cons.1 hmem with rfl | hmem
      · exact hself y List.mem_cons_self hy
      · exact hx y hmem hy
    obtain ⟨seen', hseen', hlength, hkept⟩ : ∃ seen', g.reversed.visit (g.edges.length + 1)
      [x] seen = seen' ∧ seen'.length ≤ seen.length + 1 ∧ ∀ y, y = x ∨ y ∈ seen → y ∈ seen' := by
      by_cases hmem : x ∈ seen
      · refine ⟨seen, visit_of_seen fun y hy => List.mem_singleton.1 hy ▸ hmem, Nat.le_succ _, ?_⟩
        exact fun y hy => hy.elim (fun heq => heq ▸ hmem) id
      · refine ⟨x :: seen, ?_, Nat.le_refl _, fun y hy => List.mem_cons.2 hy⟩
        rw [visit, if_neg (mt List.contains_iff_mem.1 hmem), List.append_nil]
        exact visit_of_seen fun y hy => List.mem_cons_of_mem _ (hpreds y (leads_reversed.1 hy))
    rw [meetsOthers, hseen', Bool.or_eq_false_iff, decide_eq_false_iff_not, Nat.not_lt]
    refine ⟨hlength,
      ih hordered (fun y hy => hself y (List.mem_cons_of_mem _ hy)) fun y hy z hz => ?_⟩
    rcases hasked y (List.mem_cons_of_mem _ hy) z hz with hmem | hmem
    · exact .inl (hkept z (.inr hmem))
    · exact (List.mem_cons.1 hmem).imp_left fun heq => hkept z (.inl heq)

/-- There is an order of dependencies just if there is no cycle, and it is the order in which the
walks are done with the nodes. -/
theorem dependencyOrder_eq_some_iff (hg : g.IsSound) :
    g.dependencyOrder = some order ↔ g.IsAcyclic ∧ order = g.finishOrder := by
  simp only [dependencyOrder, Option.ite_none_left_eq_some, Bool.not_eq_true, Bool.or_eq_false_iff,
    List.any_eq_false, not_asksItself_iff, Option.some.injEq]
  constructor
  · rintro ⟨⟨hself, hmeets⟩, horder⟩
    exact ⟨isAcyclic_of_meetsOthers hg hself hmeets, horder.symm⟩
  · rintro ⟨hacyclic, rfl⟩
    obtain ⟨hperm, hordered⟩ := finishOrder_perm hg hacyclic
    have hself : ∀ x, ¬ g.Leads x x := fun x hleads => hacyclic x (.single hleads)
    refine ⟨⟨fun x _ => hself x, meetsOthers_eq_false (List.pairwise_reverse.2 hordered)
      (fun x _ => hself x) ?_⟩, rfl⟩
    intro x _ y hy
    exact .inr (List.mem_reverse.2 (mem_finishOrder hg (hg.mem_of_leads hy).1))

end Depsolve.SolutionGraph
