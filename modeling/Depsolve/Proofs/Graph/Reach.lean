import Mathlib.Logic.Relation
import Depsolve.Graph.Order

/-!
# What a project leads to

`SolutionGraph.visit` counts its steps down from a bound. That suffices, since each step either
drops a node that was seen, or sees a node and so uses up the edges that start at it
(`SolutionGraph.unseen`). What has been seen in the end is therefore closed under the edges, and
`reach` finds exactly the nodes at the end of a path.
-/

namespace Depsolve.SolutionGraph

variable {g : SolutionGraph} {x y : String} {todo seen : List String} {n : Nat}

def Leads (g : SolutionGraph) (x y : String) : Prop :=
  y ∈ g.successors x

theorem leads_iff : g.Leads x y ↔ ∃ constraint, ⟨x, y, constraint⟩ ∈ g.edges := by
  simp only [Leads, successors, List.mem_map, List.mem_filter, decide_eq_true_eq]
  constructor
  · rintro ⟨⟨source, target, constraint⟩, ⟨he, rfl⟩, rfl⟩
    exact ⟨constraint, he⟩
  · rintro ⟨constraint, he⟩
    exact ⟨⟨x, y, constraint⟩, ⟨he, rfl⟩, rfl⟩

/-- The number of edges that start at nodes which were not seen. -/
def unseen (g : SolutionGraph) (seen : List String) : Nat :=
  (g.edges.filter fun e => ! seen.contains e.source).length

theorem unseen_nil : g.unseen [] = g.edges.length := by
  simp [unseen]

/-- Seeing a node uses up the edges that start at it. -/
theorem unseen_cons (h : ¬ seen.contains x = true) :
    g.unseen (x :: seen) + (g.successors x).length = g.unseen seen := by
  rw [unseen, unseen, successors, List.length_map]
  simp only [List.contains_cons]
  generalize g.edges = edges
  induction edges with
  | nil => rfl
  | cons e edges ih =>
    simp only [List.filter_cons]
    by_cases he : e.source = x
    · have hseen : seen.contains x = false := by simpa using h
      simp only [he, hseen, beq_self_eq_true, Bool.true_or, Bool.not_true,
        Bool.false_eq_true, if_false, decide_true, if_true, Bool.not_false, List.length_cons]
      omega
    · have hne : (e.source == x) = false := by simpa using he
      simp only [hne, Bool.false_or, he, decide_false, Bool.false_eq_true, if_false]
      split
      · simp only [List.length_cons]
        omega
      · exact ih

/-- All that is to be looked at is seen in the end, and what has been seen is closed
under the edges. -/
theorem visit_closed (hn : todo.length + g.unseen seen ≤ n)
    (hseen : ∀ a ∈ seen, ∀ b, g.Leads a b → b ∈ seen ∨ b ∈ todo) :
    (∀ a, a ∈ seen ∨ a ∈ todo → a ∈ g.visit n todo seen) ∧
      ∀ a ∈ g.visit n todo seen, ∀ b, g.Leads a b → b ∈ g.visit n todo seen := by
  induction n generalizing todo seen with
  | zero =>
    obtain rfl : todo = [] := by
      apply List.eq_nil_of_length_eq_zero
      omega
    rw [visit]
    exact ⟨fun a ha => ha.resolve_right List.not_mem_nil,
      fun a ha b hb => (hseen a ha b hb).resolve_right List.not_mem_nil⟩
  | succ n ih =>
    cases todo with
    | nil =>
      rw [visit]
      exact ⟨fun a ha => ha.resolve_right List.not_mem_nil,
        fun a ha b hb => (hseen a ha b hb).resolve_right List.not_mem_nil⟩
    | cons x todo =>
      rw [List.length_cons] at hn
      rw [visit]
      by_cases hx : seen.contains x = true
      -- a node that was seen is dropped
      · have hmem : x ∈ seen := by simpa using hx
        rw [if_pos hx]
        have hkept : ∀ a, a ∈ seen ∨ a ∈ x :: todo → a ∈ seen ∨ a ∈ todo := by
          rintro a (ha | ha)
          · exact .inl ha
          · rcases List.mem_cons.1 ha with rfl | ha
            · exact .inl hmem
            · exact .inr ha
        obtain ⟨hall, hclosed⟩ := ih (by omega) fun a ha b hb => hkept b (hseen a ha b hb)
        exact ⟨fun a ha => hall a (hkept a ha), hclosed⟩
      -- any other is seen, and all that it leads to is to be looked at
      · have hunseen := unseen_cons (g := g) hx
        rw [if_neg hx]
        have hn' : (g.successors x ++ todo).length + g.unseen (x :: seen) ≤ n := by
          rw [List.length_append]
          omega
        have hkept : ∀ a, a ∈ seen ∨ a ∈ x :: todo →
            a ∈ x :: seen ∨ a ∈ g.successors x ++ todo := by
          rintro a (ha | ha)
          · exact .inl (List.mem_cons_of_mem _ ha)
          · rcases List.mem_cons.1 ha with rfl | ha
            · exact .inl List.mem_cons_self
            · exact .inr (List.mem_append_right _ ha)
        have hseen' : ∀ a ∈ x :: seen, ∀ b, g.Leads a b →
            b ∈ x :: seen ∨ b ∈ g.successors x ++ todo := by
          intro a ha b hb
          rcases List.mem_cons.1 ha with rfl | ha
          · exact .inr (List.mem_append_left _ hb)
          · exact hkept b (hseen a ha b hb)
        obtain ⟨hall, hclosed⟩ := ih hn' hseen'
        exact ⟨fun a ha => hall a (hkept a ha), hclosed⟩

theorem visit_leads (h : x ∈ g.visit n todo seen) :
    x ∈ seen ∨ ∃ a ∈ todo, Relation.ReflTransGen g.Leads a x := by
  induction n generalizing todo seen with
  | zero => exact .inl h
  | succ n ih =>
    cases todo with
    | nil => exact .inl h
    | cons y todo =>
      rw [visit] at h
      split at h
      · rcases ih h with h | ⟨a, ha, hpath⟩
        · exact .inl h
        · exact .inr ⟨a, List.mem_cons_of_mem _ ha, hpath⟩
      · rcases ih h with h | ⟨a, ha, hpath⟩
        · rcases List.mem_cons.1 h with rfl | h
          · exact .inr ⟨x, List.mem_cons_self, .refl⟩
          · exact .inl h
        · rcases List.mem_append.1 ha with ha | ha
          · exact .inr ⟨y, List.mem_cons_self, .head ha hpath⟩
          · exact .inr ⟨a, List.mem_cons_of_mem _ ha, hpath⟩

/-- A project leads to those at the end of a path. -/
theorem mem_reach : y ∈ g.reach x ↔ Relation.ReflTransGen g.Leads x y := by
  rw [reach, SortedSet.mem_ofList]
  constructor
  · intro h
    rcases visit_leads h with h | ⟨a, ha, hpath⟩
    · exact absurd h List.not_mem_nil
    · rw [List.mem_singleton.1 ha] at hpath
      exact hpath
  · intro h
    have hbound : [x].length + g.unseen [] ≤ g.edges.length + 2 := by
      rw [unseen_nil, List.length_singleton]
      omega
    obtain ⟨hall, hclosed⟩ := visit_closed hbound fun a ha => absurd ha List.not_mem_nil
    induction h with
    | refl => exact hall x (.inr (List.mem_singleton.2 rfl))
    | tail _ hleads ih => exact hclosed _ ih _ hleads

theorem mem_reachableFromRoot :
    x ∈ g.reachableFromRoot ↔ Relation.ReflTransGen g.Leads g.root x ∧ x ≠ g.root := by
  rw [reachableFromRoot, SortedSet.mem_filter, mem_reach, decide_eq_true_eq]

end Depsolve.SolutionGraph
