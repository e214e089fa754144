import Depsolve.Proofs.Solve.Discipline
import Depsolve.Proofs.Solve.Links
import Depsolve.Proofs.Solve.Soundness

/-!
# The graph of a finished search

A graph is assembled from the decisions and the requirements of a search. Once every required
project is decided on, none of its edges is left out: it has a node for each decision, and an edge
for each requirement of one project on another (`PartialSolution.Sound.graph_eq`).
-/

namespace Depsolve

variable {u : Universe} {problem : Problem} {options : SolveOptions} {limits : Limits}
  {p : PartialSolution}

namespace SolutionGraph

theorem foldl_addProject {g : SolutionGraph} {decisions : List Decision}
    (hdistinct : (decisions.map Decision.root).Nodup) (hnew : ∀ d ∈ decisions, ¬ d.root ∈ g.roots) :
    decisions.foldl (fun g d => g.addProject d.root d.version) g =
      { g with projects := g.projects ++ decisions.map fun d => ⟨d.root, some d.version⟩ } := by
  induction decisions generalizing g with
  | nil => simp
  | cons d rest ih =>
    rw [List.map_cons, List.nodup_cons] at hdistinct
    obtain ⟨hd, hrest⟩ := hdistinct
    have hadd : g.addProject d.root d.version =
        { g with projects := g.projects ++ [⟨d.root, some d.version⟩] } := by
      unfold addProject
      rw [if_neg (by simpa using hnew d List.mem_cons_self)]
    rw [List.foldl_cons, hadd, ih hrest]
    · simp
    · intro e he hmem
      simp only [roots, nodes, List.map_cons, List.map_append, List.map_nil, List.mem_cons,
        List.mem_append, List.not_mem_nil, or_false] at hmem
      have hold := hnew e (List.mem_cons_of_mem _ he)
      simp only [roots, nodes, List.map_cons, List.mem_cons] at hold
      rcases hmem with hmem | hmem | hmem
      · exact hold (.inl hmem)
      · exact hold (.inr hmem)
      · exact hd (hmem ▸ List.mem_map_of_mem he)

end SolutionGraph

namespace PartialSolution

theorem addEdge_eq {g : SolutionGraph} {r : Requirement}
    (hsource : p.dependerRoot g.root r ∈ g.roots) (htarget : r.project.root ∈ g.roots) :
    (p.addEdge g r).root = g.root ∧ (p.addEdge g r).projects = g.projects ∧
      ∀ e, e ∈ (p.addEdge g r).edges ↔
        e ∈ g.edges ∨ e = ⟨p.dependerRoot g.root r, r.project.root, r.constraint⟩ := by
  have hsource' : g.roots.contains (p.dependerRoot g.root r) = true := by simpa using hsource
  have htarget' : g.roots.contains r.project.root = true := by simpa using htarget
  unfold addEdge SolutionGraph.addDependency
  simp only [hsource', htarget', Bool.not_true, Bool.false_eq_true, if_false]
  by_cases hknown :
      g.edges.contains ⟨p.dependerRoot g.root r, r.project.root, r.constraint⟩ = true
  · simp only [if_pos hknown]
    refine ⟨trivial, trivial, fun e => ⟨.inl, ?_⟩⟩
    rintro (he | rfl)
    · exact he
    · simpa using hknown
  · simp only [if_neg hknown, List.mem_append, List.mem_singleton, implies_true, and_self]

theorem addEdge_root {g : SolutionGraph} {r : Requirement}
    (hsource : p.dependerRoot g.root r ∈ g.roots) (htarget : r.project.root ∈ g.roots) :
    (p.addEdge g r).root = g.root :=
  (addEdge_eq hsource htarget).1

theorem addEdge_roots {g : SolutionGraph} {r : Requirement}
    (hsource : p.dependerRoot g.root r ∈ g.roots) (htarget : r.project.root ∈ g.roots) :
    (p.addEdge g r).roots = g.roots := by
  obtain ⟨hroot, hprojects, -⟩ := addEdge_eq hsource htarget
  rw [SolutionGraph.roots, SolutionGraph.nodes, hroot, hprojects]
  rfl

theorem foldl_addEdge {g : SolutionGraph} {requirements : List Requirement}
    (h : ∀ r ∈ requirements, p.dependerRoot g.root r ∈ g.roots ∧ r.project.root ∈ g.roots) :
    (requirements.foldl p.addEdge g).root = g.root ∧
      (requirements.foldl p.addEdge g).projects = g.projects ∧
        ∀ e, e ∈ (requirements.foldl p.addEdge g).edges ↔ e ∈ g.edges ∨ ∃ r ∈ requirements,
          e = ⟨p.dependerRoot g.root r, r.project.root, r.constraint⟩ := by
  induction requirements generalizing g with
  | nil =>
    rw [List.foldl_nil]
    exact ⟨rfl, rfl, fun e => by simp⟩
  | cons r rest ih =>
    obtain ⟨hsource, htarget⟩ := h r List.mem_cons_self
    obtain ⟨hroot, hprojects, hedges⟩ := addEdge_eq hsource htarget
    have hroots := addEdge_roots hsource htarget
    have hrest : ∀ r' ∈ rest, p.dependerRoot (p.addEdge g r).root r' ∈ (p.addEdge g r).roots ∧
        r'.project.root ∈ (p.addEdge g r).roots := by
      intro r' hr'
      rw [hroot, hroots]
      exact h r' (List.mem_cons_of_mem _ hr')
    obtain ⟨ihroot, ihprojects, ihedges⟩ := ih hrest
    rw [List.foldl_cons]
    refine ⟨ihroot.trans hroot, ihprojects.trans hprojects, fun e => ?_⟩
    simp only [ihedges e, hedges e, hroot, or_assoc, List.mem_cons, exists_eq_or_imp]

/-! ## Finished searches -/

/-- A requirement on another project asks for a path that the problem does not skip. -/
theorem Rooted.exists_path (h : p.Rooted u problem) {r : Requirement} (hr : r ∈ p.requirements)
    (hi : r.isInternal = false) :
    ∃ path ∈ r.packages, u.rootOf path = .ok r.project.root ∧ problem.skips path = false := by
  rcases h r hr hi with hstem | ⟨sel, -, hstem⟩
  · obtain ⟨path, hpath⟩ := hstem.nonempty
    obtain ⟨himports, howner⟩ := hstem.imported path hpath
    obtain ⟨-, -, -, -, -, hskips⟩ := Problem.mem_imports.1 himports
    exact ⟨path, hpath, howner, hskips⟩
  · obtain ⟨path, hpath⟩ := hstem.nonempty
    obtain ⟨howner, hplace, -⟩ := hstem.imported path hpath
    refine ⟨path, hpath, howner, ?_⟩
    unfold Problem.place at hplace
    split at hplace
    · simp at hplace
    · rename_i hskips
      simpa using hskips

theorem Sound.root_ne (hp : p.Sound u problem) (hrooted : p.Rooted u problem) {d : Decision}
    (hd : d ∈ p.decisions) : d.root ≠ problem.root := by
  obtain ⟨r, hr, hi, hproject⟩ := hp.required d hd
  obtain ⟨path, -, howner, hskips⟩ := hrooted.exists_path hr hi
  intro hroot
  have hcovers := Universe.covers_of_rootOf howner
  rw [hproject] at hcovers
  change ImportPath.covers d.root path = true at hcovers
  rw [hroot] at hcovers
  simp [Problem.skips, hcovers] at hskips

theorem Complete.exists_decision (hc : p.Complete) {r : Requirement} (hr : r ∈ p.requirements) :
    ∃ d ∈ p.decisions, d.root = r.project.root := by
  obtain ⟨sel, hsel⟩ := hc r hr
  obtain ⟨d, hd, hroot, -⟩ := selected?_eq_some hsel
  exact ⟨d, mem_of_decision? hd, hroot⟩

theorem dependerRoot_of_none {root : String} {r : Requirement} (h : r.depender = none) :
    p.dependerRoot root r = root := by
  simp [dependerRoot, h]

theorem dependerRoot_of_some {root : String} {r : Requirement} {i : Nat} {d : Decision}
    (h : r.depender = some i) (hd : p.decision? i = some d) : p.dependerRoot root r = d.root := by
  simp [dependerRoot, h, hd]

/-- The graph of a partial solution before its edges are added. -/
def nodes (p : PartialSolution) (root : String) : SolutionGraph :=
  p.decisions.foldl (fun g d => g.addProject d.root d.version) (.new root)

theorem Sound.nodes_eq (hp : p.Sound u problem) (hrooted : p.Rooted u problem) :
    p.nodes problem.root =
      ⟨problem.root, p.decisions.map fun d => ⟨d.root, some d.version⟩, []⟩ := by
  unfold nodes
  rw [SolutionGraph.foldl_addProject (g := .new problem.root) hp.distinct fun d hd hmem => ?_]
  · rfl
  · simp only [SolutionGraph.new, SolutionGraph.roots, SolutionGraph.nodes,
      List.map_cons, List.map_nil, List.mem_singleton] at hmem
    exact hp.root_ne hrooted hd hmem

/-- In a finished search, both ends of a requirement are nodes. -/
theorem Sound.ends_mem (hp : p.Sound u problem) (hc : p.Complete) (hordered : p.Ordered)
    (hrooted : p.Rooted u problem) {r : Requirement} (hr : r ∈ p.requirements) :
    p.dependerRoot (p.nodes problem.root).root r ∈ (p.nodes problem.root).roots ∧
      r.project.root ∈ (p.nodes problem.root).roots := by
  rw [hp.nodes_eq hrooted]
  have hdecided : ∀ d ∈ p.decisions, d.root ∈ (SolutionGraph.mk problem.root
      (p.decisions.map fun d => ⟨d.root, some d.version⟩) []).roots := by
    intro d hd
    refine List.mem_cons_of_mem _ (List.mem_map.2 ⟨⟨d.root, some d.version⟩, ?_, rfl⟩)
    exact List.mem_map.2 ⟨d, hd, rfl⟩
  constructor
  · rcases hordered.owner_depender hr with ⟨-, hnone⟩ | ⟨o, i, -, hi, hle, hlt⟩
    · rw [dependerRoot_of_none hnone]
      exact List.mem_cons_self
    · obtain ⟨d, hd⟩ := exists_decision? (Nat.lt_of_le_of_lt hle hlt)
      rw [dependerRoot_of_some hi hd]
      exact hdecided d (mem_of_decision? hd)
  · obtain ⟨d, hd, hroot⟩ := hc.exists_decision hr
    rw [← hroot]
    exact hdecided d hd

/-- The graph of a finished search has a node for each decision. -/
theorem Sound.graph_eq (hp : p.Sound u problem) (hc : p.Complete) (hordered : p.Ordered)
    (hrooted : p.Rooted u problem) :
    (p.graph problem.root).root = problem.root ∧
      (p.graph problem.root).projects = p.decisions.map (fun d => ⟨d.root, some d.version⟩) ∧
        ∀ e, e ∈ (p.graph problem.root).edges ↔ ∃ r ∈ p.requirements, r.isInternal = false ∧
          e = ⟨p.dependerRoot problem.root r, r.project.root, r.constraint⟩ := by
  have hends : ∀ r ∈ p.requirements.filter (fun r => ! r.isInternal),
      p.dependerRoot (p.nodes problem.root).root r ∈ (p.nodes problem.root).roots ∧
        r.project.root ∈ (p.nodes problem.root).roots :=
    fun r hr => hp.ends_mem hc hordered hrooted (List.mem_filter.1 hr).1
  obtain ⟨hroot, hprojects, hedges⟩ := foldl_addEdge hends
  have hgraph : p.graph problem.root =
      (p.requirements.filter fun r => ! r.isInternal).foldl p.addEdge (p.nodes problem.root) := rfl
  rw [hp.nodes_eq hrooted] at hgraph hroot hprojects hedges
  rw [hgraph]
  refine ⟨hroot, hprojects, fun e => ?_⟩
  rw [hedges e]
  simp only [List.not_mem_nil, false_or, List.mem_filter, Bool.not_eq_true', and_assoc]

/-- The graph of a partial solution, if both ends of every requirement are there. -/
def graph? (p : PartialSolution) (root : String) : Except String SolutionGraph :=
  (p.requirements.filter fun r => ! r.isInternal).foldlM
    (fun g r => g.addDependency (p.dependerRoot g.root r) r.project.root r.constraint)
    (p.nodes root)

theorem addDependency_eq_ok {g : SolutionGraph} {r : Requirement}
    (hsource : p.dependerRoot g.root r ∈ g.roots) (htarget : r.project.root ∈ g.roots) :
    g.addDependency (p.dependerRoot g.root r) r.project.root r.constraint =
      .ok (p.addEdge g r) := by
  have hsource' : g.roots.contains (p.dependerRoot g.root r) = true := by simpa using hsource
  have htarget' : g.roots.contains r.project.root = true := by simpa using htarget
  unfold addEdge SolutionGraph.addDependency
  simp only [hsource', htarget', Bool.not_true, Bool.false_eq_true, if_false]
  split <;> rfl

theorem foldlM_addDependency {g : SolutionGraph} {requirements : List Requirement}
    (h : ∀ r ∈ requirements, p.dependerRoot g.root r ∈ g.roots ∧ r.project.root ∈ g.roots) :
    requirements.foldlM
        (fun g r => g.addDependency (p.dependerRoot g.root r) r.project.root r.constraint) g =
      .ok (requirements.foldl p.addEdge g) := by
  induction requirements generalizing g with
  | nil => rfl
  | cons r rest ih =>
    obtain ⟨hsource, htarget⟩ := h r List.mem_cons_self
    rw [List.foldlM_cons, addDependency_eq_ok hsource htarget]
    refine ih fun r' hr' => ?_
    rw [addEdge_root hsource htarget, addEdge_roots hsource htarget]
    exact h r' (List.mem_cons_of_mem _ hr')

/-- In a finished search, no edge is left out of the graph. -/
theorem Sound.graph?_eq (hp : p.Sound u problem) (hc : p.Complete) (hordered : p.Ordered)
    (hrooted : p.Rooted u problem) : p.graph? problem.root = .ok (p.graph problem.root) :=
  foldlM_addDependency fun _ hr => hp.ends_mem hc hordered hrooted (List.mem_filter.1 hr).1

end PartialSolution

end Depsolve
