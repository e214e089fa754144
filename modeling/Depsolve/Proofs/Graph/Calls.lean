import Mathlib.Data.List.Induction
import Mathlib.Data.List.Nodup
import Depsolve.Graph.Basic

/-!
# Graphs as calls build them

A graph is built by calls that add a project or a dependency, in whatever order. A call that fails
leaves the graph as it is. Whatever the calls are, no project is in the graph twice and every edge
joins projects that are there (`SolutionGraph.isSound_after`).
-/

namespace Depsolve

/-- A call that is to add something to a graph. -/
inductive GraphCall
  | project (root : String) (version : Version)
  | dependency (source target : String) (constraint : Constraint)

namespace SolutionGraph

/-- The graph after a call; if the call fails, it is the graph before it. -/
def answer (g : SolutionGraph) : GraphCall → SolutionGraph
  | .project root version => g.addProject root version
  | .dependency source target constraint =>
      (g.addDependency source target constraint).toOption.getD g

/-- The graph of a root project after some calls. -/
def after (root : String) (calls : List GraphCall) : SolutionGraph :=
  calls.foldl answer (.new root)

/-- No two nodes have one root, and edges join nodes. -/
structure IsSound (g : SolutionGraph) : Prop where
  nodup : g.roots.Nodup
  source_mem : ∀ e ∈ g.edges, e.source ∈ g.roots
  target_mem : ∀ e ∈ g.edges, e.target ∈ g.roots

variable {g g' : SolutionGraph} {root source target : String} {version : Version}
  {constraint : Constraint}

/-! ## One call -/

theorem roots_addProject : (g.addProject root version).roots =
    if root ∈ g.roots then g.roots else g.roots ++ [root] := by
  by_cases h : root ∈ g.roots
  · have hcontains : g.roots.contains root = true := by simpa using h
    rw [addProject, if_pos hcontains, if_pos h]
  · have hcontains : ¬ g.roots.contains root = true := by simpa using h
    rw [addProject, if_neg hcontains, if_neg h]
    simp [roots, nodes]

theorem edges_addProject : (g.addProject root version).edges = g.edges := by
  unfold addProject
  split <;> rfl

theorem addDependency_of_source (h : source ∉ g.roots) :
    g.addDependency source target constraint = .error source := by
  simp [addDependency, h]

theorem addDependency_of_target (hsource : source ∈ g.roots) (htarget : target ∉ g.roots) :
    g.addDependency source target constraint = .error target := by
  simp [addDependency, hsource, htarget]

/-- A dependency is refused just if one of its ends is missing. -/
theorem exists_addDependency_error_iff :
    (∃ missing, g.addDependency source target constraint = .error missing) ↔
    source ∉ g.roots ∨ target ∉ g.roots := by
  constructor
  · rintro ⟨missing, h⟩
    by_contra hnot
    rw [not_or, not_not, not_not] at hnot
    simp only [addDependency, List.contains_iff_mem.2 hnot.1, List.contains_iff_mem.2 hnot.2,
      Bool.not_true, Bool.false_eq_true, if_false] at h
    split at h <;> exact nomatch h
  · intro h
    by_cases hsource : source ∈ g.roots
    · exact ⟨target, addDependency_of_target hsource (h.resolve_left (not_not.2 hsource))⟩
    · exact ⟨source, addDependency_of_source hsource⟩

/-- Nothing is added for an edge that is there. -/
theorem addDependency_of_mem (hsource : source ∈ g.roots) (htarget : target ∈ g.roots)
    (he : ⟨source, target, constraint⟩ ∈ g.edges) :
    g.addDependency source target constraint = .ok g := by
  simp [addDependency, hsource, htarget, he]

theorem addDependency_of_not_mem (hsource : source ∈ g.roots) (htarget : target ∈ g.roots)
    (he : ⟨source, target, constraint⟩ ∉ g.edges) : g.addDependency source target constraint =
      .ok { g with edges := g.edges ++ [⟨source, target, constraint⟩] } := by
  simp [addDependency, hsource, htarget, he]

/-- What a call adds stays, and nothing else changes. -/
theorem answer_cases (g : SolutionGraph) (call : GraphCall) : g.answer call = g ∨
    (∃ root version, call = .project root version ∧ root ∉ g.roots ∧
      (g.answer call).roots = g.roots ++ [root] ∧ (g.answer call).edges = g.edges) ∨
    ∃ source target constraint, call = .dependency source target constraint ∧ source ∈ g.roots ∧
      target ∈ g.roots ∧ (g.answer call).roots = g.roots ∧
      ∀ e, e ∈ (g.answer call).edges ↔ e ∈ g.edges ∨ e = ⟨source, target, constraint⟩ := by
  cases call with
  | project root version =>
    by_cases h : root ∈ g.roots
    · left
      rw [answer, addProject, if_pos (List.contains_iff_mem.2 h)]
    · refine .inr (.inl ⟨root, version, rfl, h, ?_, edges_addProject⟩)
      rw [answer, roots_addProject, if_neg h]
  | dependency source target constraint =>
    by_cases hsource : source ∈ g.roots
    · by_cases htarget : target ∈ g.roots
      · by_cases he : ⟨source, target, constraint⟩ ∈ g.edges
        · left
          rw [answer, addDependency_of_mem hsource htarget he]
          rfl
        · refine .inr (.inr ⟨source, target, constraint, rfl, hsource, htarget, ?_, ?_⟩) <;>
            rw [answer, addDependency_of_not_mem hsource htarget he]
          · rfl
          · simp [Except.toOption]
      · left
        rw [answer, addDependency_of_target hsource htarget]
        rfl
    · left
      rw [answer, addDependency_of_source hsource]
      rfl

theorem IsSound.answer (h : g.IsSound) (call : GraphCall) : (g.answer call).IsSound := by
  rcases g.answer_cases call with hsame | ⟨root, version, -, hnew, hroots, hedges⟩ |
    ⟨source, target, constraint, -, hsource, htarget, hroots, hedges⟩
  · rwa [hsame]
  · refine ⟨?_, ?_, ?_⟩
    · rw [hroots]
      exact List.nodup_append.2 ⟨h.nodup, List.nodup_singleton root, by grind⟩
    · rw [hroots, hedges]
      exact fun e he => List.mem_append_left _ (h.source_mem e he)
    · rw [hroots, hedges]
      exact fun e he => List.mem_append_left _ (h.target_mem e he)
  · refine ⟨hroots ▸ h.nodup, ?_, ?_⟩ <;> intro e he <;> rw [hroots] <;>
      rcases (hedges e).1 he with he | rfl
    · exact h.source_mem e he
    · exact hsource
    · exact h.target_mem e he
    · exact htarget

theorem mem_edges_answer {call : GraphCall} : ⟨source, target, constraint⟩ ∈ (g.answer call).edges ↔
    ⟨source, target, constraint⟩ ∈ g.edges ∨
      call = .dependency source target constraint ∧ source ∈ g.roots ∧ target ∈ g.roots := by
  constructor
  · intro he
    rcases g.answer_cases call with hsame | ⟨root, version, -, -, -, hedges⟩ |
      ⟨s, t, c, rfl, hsource, htarget, -, hedges⟩
    · exact .inl (hsame ▸ he)
    · exact .inl (hedges ▸ he)
    · rcases (hedges _).1 he with he | he
      · exact .inl he
      · cases he
        exact .inr ⟨rfl, hsource, htarget⟩
  · rintro (he | ⟨rfl, hsource, htarget⟩)
    · rcases g.answer_cases call with hsame | ⟨root, version, -, -, -, hedges⟩ |
        ⟨s, t, c, -, -, -, -, hedges⟩
      · rwa [hsame]
      · rwa [hedges]
      · exact (hedges _).2 (.inl he)
    · by_cases he : ⟨source, target, constraint⟩ ∈ g.edges
      · rwa [answer, addDependency_of_mem hsource htarget he]
      · rw [answer, addDependency_of_not_mem hsource htarget he]
        exact List.mem_append_right _ (List.mem_singleton_self _)

theorem mem_roots_answer {x : String} {call : GraphCall} :
    x ∈ (g.answer call).roots ↔ x ∈ g.roots ∨ ∃ version, call = .project x version := by
  cases call with
  | project root version =>
    have hcall : (∃ version', GraphCall.project root version = .project x version') ↔ x = root := by
      simp [eq_comm]
    rw [answer, roots_addProject, hcall]
    split
    · rename_i hroot
      constructor
      · exact .inl
      · rintro (hx | rfl)
        · exact hx
        · exact hroot
    · rw [List.mem_append, List.mem_singleton]
  | dependency source target constraint =>
    have hroots : (g.answer (.dependency source target constraint)).roots = g.roots := by
      rcases g.answer_cases (.dependency source target constraint) with hsame | ⟨_, _, hcall, -⟩ |
        ⟨_, _, _, -, -, -, hroots, -⟩
      · rw [hsame]
      · exact nomatch hcall
      · exact hroots
    simp [hroots]

/-! ## Any calls -/

theorem after_append (root : String) (calls more : List GraphCall) :
    after root (calls ++ more) = more.foldl answer (after root calls) := by
  rw [after, after, List.foldl_append]

theorem foldl_answer_induction {P : SolutionGraph → Prop}
    (hstep : ∀ g call, P g → P (g.answer call)) (calls : List GraphCall) (h : P g) :
    P (calls.foldl answer g) := by
  induction calls generalizing g with
  | nil => exact h
  | cons call calls ih => exact ih (hstep g call h)

theorem isSound_after (root : String) (calls : List GraphCall) : (after root calls).IsSound := by
  refine foldl_answer_induction (fun _ call h => h.answer call) calls ⟨?_, ?_, ?_⟩
  · exact List.nodup_singleton root
  · exact fun e he => nomatch he
  · exact fun e he => nomatch he

/-- The projects of a graph are the root project and those that a call adds. -/
theorem mem_roots_after {calls : List GraphCall} {x : String} :
    x ∈ (after root calls).roots ↔ x = root ∨ ∃ version, .project x version ∈ calls := by
  induction calls using List.reverseRecOn with
  | nil => simp [after, new, roots, nodes]
  | append_singleton calls call ih =>
    rw [after_append, List.foldl_cons, List.foldl_nil, mem_roots_answer, ih]
    simp only [List.mem_append, List.mem_singleton]
    grind

/-- The edges of a graph are the dependencies that a call adds when both of their ends are there. -/
theorem mem_edges_after {calls : List GraphCall} :
    ⟨source, target, constraint⟩ ∈ (after root calls).edges ↔
    ∃ before later, calls = before ++ .dependency source target constraint :: later ∧
      source ∈ (after root before).roots ∧ target ∈ (after root before).roots := by
  induction calls using List.reverseRecOn with
  | nil =>
    constructor
    · exact fun he => nomatch he
    · rintro ⟨before, later, heq, -⟩
      simp at heq
  | append_singleton calls call ih =>
    rw [after_append, List.foldl_cons, List.foldl_nil, mem_edges_answer, ih]
    constructor
    · rintro (⟨before, later, rfl, hends⟩ | ⟨rfl, hends⟩)
      · exact ⟨before, later ++ [call], by simp, hends⟩
      · exact ⟨calls, [], rfl, hends⟩
    · rintro ⟨before, later, heq, hends⟩
      rcases List.eq_nil_or_concat later with rfl | ⟨later, last, rfl⟩
      · obtain ⟨rfl, hcall⟩ := List.append_inj' heq rfl
        exact .inr ⟨(List.cons.inj hcall).1, hends⟩
      · rw [List.concat_eq_append, ← List.cons_append, ← List.append_assoc] at heq
        exact .inl ⟨before, later, (List.append_inj' heq rfl).1, hends⟩

end SolutionGraph

end Depsolve
