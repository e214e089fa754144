import Depsolve.Proofs.Graph.Reach
import Depsolve.Proofs.Solve.Graph
import Depsolve.Proofs.Solve.Least

/-!
# Solutions are exact

A solution locks nothing that is not reached, and its graph tells who asks for what among the locked
projects, no more and no less.

## Main definitions

- `Lock.Reaches`: a package is at the end of a chain of imports from the problem through
  locked packages.
- `Lock.Links`: a locked package that is reached, or the problem, imports from another project.
- `Solution.IsExact`: all that is locked is reached, and the graph has exactly the locked projects
  and the links between them. `Provider.isExact_of_solve` proves it of every solution.
-/

namespace Depsolve

variable {u : Universe} {problem : Problem} {options : SolveOptions} {limits : Limits}
  {p : PartialSolution}

def LockedProject.Has (entry : LockedProject) (package : String) : Prop :=
  ∃ relative, ImportPath.relative? entry.project.root package = some relative ∧
    relative ∈ entry.packages

namespace Lock

/-- The packages, by lock entry and full path, that chains of imports lead to from the problem,
through locked packages only. -/
inductive Reaches (u : Universe) (problem : Problem) (lock : Lock) : LockedProject → String → Prop
  | base {entry : LockedProject} {path : String} : path ∈ problem.imports →
      u.rootOf path = .ok entry.project.root → entry ∈ lock.projects → entry.Has path →
      Reaches u problem lock entry path
  /-- A package imports another of its project. -/
  | inside {entry : LockedProject} {package path : String} : Reaches u problem lock entry package →
      u.Carries entry.project entry.version package path →
      problem.place entry.project.root path = .inside → entry.Has path →
      Reaches u problem lock entry path
  /-- A package imports one of another project. -/
  | outside {entry other : LockedProject} {package path : String} :
      Reaches u problem lock entry package → u.Carries entry.project entry.version package path →
      problem.place entry.project.root path = .outside → u.rootOf path = .ok other.project.root →
      other ∈ lock.projects → other.Has path → Reaches u problem lock other path

/-- The edges that imports make: from the problem, and from locked packages that are reached, to the
projects that the imported paths belong to, with the constraint that applies. -/
inductive Links (u : Universe) (problem : Problem) (lock : Lock) : GraphEdge → Prop
  | base {path target : String} : path ∈ problem.imports → u.rootOf path = .ok target →
      Links u problem lock
        ⟨problem.root, target, (problem.termsFor problem.manifest target).constraint⟩
  /-- A locked package imports a path of another project. -/
  | outside {entry : LockedProject} {package path target : String} {manifest : Manifest} :
      entry ∈ lock.projects → lock.Reaches u problem entry package →
      u.Carries entry.project entry.version package path →
      problem.place entry.project.root path = .outside → u.rootOf path = .ok target →
      u.manifestOf entry.project entry.version = .ok manifest →
      Links u problem lock
        ⟨entry.project.root, target, (problem.termsFor manifest target).constraint⟩

variable {lock : Lock} {entry : LockedProject} {package : String}

theorem Reaches.mem (h : lock.Reaches u problem entry package) : entry ∈ lock.projects := by
  induction h with
  | base _ _ hentry => exact hentry
  | inside _ _ _ _ ih => exact ih
  | outside _ _ _ _ hother => exact hother

theorem Reaches.skips_eq_false (h : lock.Reaches u problem entry package) :
    problem.skips package = false := by
  cases h with
  | base hpath =>
    obtain ⟨-, -, -, -, -, hskips⟩ := Problem.mem_imports.1 hpath
    exact hskips
  | inside _ _ hplace => exact Problem.skips_of_place (by rw [hplace]; simp)
  | outside _ _ hplace => exact Problem.skips_of_place (by rw [hplace]; simp)

/-- In a graph with the edges of all links, the root leads to what is reached. -/
theorem Reaches.leads {g : SolutionGraph} (hroot : g.root = problem.root)
    (hedges : ∀ e, lock.Links u problem e → e ∈ g.edges)
    (h : lock.Reaches u problem entry package) :
    Relation.ReflTransGen g.Leads g.root entry.project.root := by
  have hleads : ∀ e, lock.Links u problem e → g.Leads e.source e.target := by
    intro e he
    exact SolutionGraph.leads_iff.2 ⟨e.constraint, hedges e he⟩
  induction h with
  | base hpath howner =>
    rw [hroot]
    exact .single (hleads _ (.base hpath howner))
  | inside _ _ _ _ ih => exact ih
  | outside hreach hcarries hplace howner _ _ ih =>
    obtain ⟨tree, imports, htree, himports⟩ := hcarries
    obtain ⟨manifest, hm⟩ := Universe.exists_manifestOf htree
    have hlink := Links.outside hreach.mem hreach ⟨tree, imports, htree, himports⟩ hplace howner hm
    exact ih.tail (hleads _ hlink)

end Lock

/-- A solution locks only what is reached, and its graph has the locked projects as nodes and the
links between them as edges. -/
structure Solution.IsExact (u : Universe) (problem : Problem) (solution : Solution) : Prop where
  /-- Each locked package is reached, and is none to skip. -/
  reached : ∀ entry ∈ solution.lock.projects, ∀ relative ∈ entry.packages, ∃ package,
    ImportPath.relative? entry.project.root package = some relative ∧
      problem.skips package = false ∧ solution.lock.Reaches u problem entry package
  /-- If only one package of a locked version has the relative path of a locked one, that is the
  one. -/
  only : ∀ entry ∈ solution.lock.projects, ∀ tree package relative,
    u.packagesOf entry.project entry.version = .ok tree →
      ImportPath.relative? entry.project.root package = some relative → relative ∈ entry.packages →
        (∀ other, tree.contains other = true →
          ImportPath.relative? entry.project.root other = some relative → other = package) →
          solution.lock.Reaches u problem entry package
  root : solution.graph.root = problem.root
  projects : solution.graph.projects.Perm
    (solution.lock.projects.map fun entry => ⟨entry.project.root, some entry.version⟩)
  edges : ∀ e, e ∈ solution.graph.edges ↔ solution.lock.Links u problem e
  /-- The root leads to all locked projects, and to no others. -/
  reachable : ∀ root, root ∈ solution.graph.reachableFromRoot ↔
    ∃ entry ∈ solution.lock.projects, entry.project.root = root

/-! ## Finished searches -/

namespace PartialSolution

variable {lock : Lock} {d : Decision} {q : String}

def LockedBy (p : PartialSolution) (lock : Lock) : Prop :=
  ∀ entry, entry ∈ lock.projects ↔ ∃ d ∈ p.decisions, p.lockedProject d = entry

theorem lockedBy_of_ofSearch {search : Search} {solution : Solution}
    (h : Solution.ofSearch problem options search = .ok solution) :
    search.chosen.LockedBy solution.lock := by
  obtain ⟨lock, hlock, heq, -⟩ := Solution.ofSearch_ok h
  intro entry
  rw [heq, (Lock.ofProjects_ok hlock).2, List.mem_map]

/-- A package that is required of a project is among those locked for it. -/
theorem has_of_required (hq : q ∈ packagesOf (p.requirementsOn d.root))
    (hcovers : ImportPath.covers d.root q = true) : (p.lockedProject d).Has q := by
  obtain ⟨relative, hrel⟩ := ImportPath.exists_relative? hcovers
  exact ⟨relative, hrel, mem_lockedProject_packages.2 ⟨q, hq, hrel⟩⟩

/-- What a decision's packages import is what is imported under the assignment. -/
theorem Sound.imports_picks_iff (hp : p.Sound u problem) (hd : d ∈ p.decisions)
    {package path : String} :
    p.picks.Imports u d.root package path ↔ u.Carries d.frame.project d.version package path := by
  obtain ⟨i, hs⟩ := hp.selected?_of_mem hd
  constructor
  · intro himports
    have hcarries := carries_of_imports hp.backsAll_picks hs himports
    exact hcarries
  · intro hcarries
    exact ⟨d.frame.project, d.version, picks_of_selected? hs, hcarries⟩

/-- In a finished search, what is needed under its assignment is reached through the
packages it locks. -/
theorem Sound.reaches_of_needs (hp : p.Sound u problem) (hc : p.Complete) (hlock : p.LockedBy lock)
    {root : String} (hn : p.picks.Needs u problem root q) (hd : d ∈ p.decisions)
    (hroot : d.root = root) : lock.Reaches u problem (p.lockedProject d) q := by
  -- each package on the chain is required, so it is locked
  have hrequired := hp.required_of_needs hc hp.backsAll_picks hn
  have hentry : ∀ d ∈ p.decisions, p.lockedProject d ∈ lock.projects := fun d hd =>
    (hlock _).2 ⟨d, hd, rfl⟩
  induction hn generalizing d with
  | base hpath howner =>
    subst hroot
    exact .base hpath howner (hentry d hd)
      (has_of_required hrequired (Universe.covers_of_rootOf howner))
  | @inside root package path hn himports hplace ih =>
    subst hroot
    have hcovers : ImportPath.covers d.root path = true := Problem.covers_of_inside hplace
    exact .inside (ih hd rfl (hp.required_of_needs hc hp.backsAll_picks hn))
      ((hp.imports_picks_iff hd).1 himports) hplace (has_of_required hrequired hcovers)
  | @outside root package path target hn himports hplace howner ih =>
    subst hroot
    have hsource := hp.required_of_needs hc hp.backsAll_picks hn
    obtain ⟨sel, hs, -⟩ := hp.exists_provided hc hsource
    obtain ⟨e, he, rfl, -⟩ := selected?_eq_some hs
    have he' := mem_of_decision? he
    exact .outside (ih he' rfl hsource) ((hp.imports_picks_iff he').1 himports) hplace howner
      (hentry d hd) (has_of_required hrequired (Universe.covers_of_rootOf howner))

/-- What is reached through the packages of a lock is needed under the assignment that is locked. -/
theorem Sound.needs_of_reaches (hp : p.Sound u problem) (hlock : p.LockedBy lock)
    {entry : LockedProject} (h : lock.Reaches u problem entry q) :
    p.picks.Needs u problem entry.project.root q := by
  induction h with
  | base hpath howner => exact .base hpath howner
  | inside hreach hcarries hplace _ ih =>
    obtain ⟨d, hd, rfl⟩ := (hlock _).1 hreach.mem
    exact .inside ih ((hp.imports_picks_iff hd).2 hcarries) hplace
  | outside hreach hcarries hplace howner _ _ ih =>
    obtain ⟨d, hd, rfl⟩ := (hlock _).1 hreach.mem
    exact .outside ih ((hp.imports_picks_iff hd).2 hcarries) hplace howner

/-- In a finished search, the packages that are required are those that are reached. -/
theorem required_iff_reaches (h : (u.solver problem options limits).Reached p) (hc : p.Complete)
    (hlock : p.LockedBy lock) (hd : d ∈ p.decisions) :
    q ∈ packagesOf (p.requirementsOn d.root) ↔ lock.Reaches u problem (p.lockedProject d) q := by
  have hp := sound_of_reached h
  rw [mem_packagesOf_iff_needs h hc (hp.consistent_picks hc) hp.backsAll_picks]
  constructor
  · intro hn
    exact hp.reaches_of_needs hc hlock hn hd rfl
  · exact hp.needs_of_reaches hlock

/-- What a finished search locks is a package of the locked version, and it is reached. -/
theorem exists_reached (h : (u.solver problem options limits).Reached p) (hc : p.Complete)
    (hlock : p.LockedBy lock) {entry : LockedProject} (hentry : entry ∈ lock.projects)
    {relative : String} (hrelative : relative ∈ entry.packages) :
    ∃ package, ImportPath.relative? entry.project.root package = some relative ∧
      (∀ tree, u.packagesOf entry.project entry.version = .ok tree → tree.contains package = true) ∧
        lock.Reaches u problem entry package := by
  have hp := sound_of_reached h
  obtain ⟨d, hd, rfl⟩ := (hlock _).1 hentry
  obtain ⟨package, hpackage, hrel⟩ := mem_lockedProject_packages.1 hrelative
  refine ⟨package, hrel, fun tree htree => ?_, (required_iff_reaches h hc hlock hd).1 hpackage⟩
  obtain ⟨sel, hs, tree', -, imports, htree', -, himports, -⟩ := hp.exists_provided hc hpackage
  obtain ⟨i, hs'⟩ := hp.selected?_of_mem hd
  obtain rfl : selection i d = sel := by simpa [hs'] using hs
  obtain rfl : tree = tree' := by
    have hsame := htree.symm.trans htree'
    simpa using hsame
  change (tree.imports? package).isSome = true
  rw [himports]
  rfl

/-- In a finished search, requirements on other projects are links. -/
theorem links_of_requirement (h : (u.solver problem options limits).Reached p) (hc : p.Complete)
    (hlock : p.LockedBy lock) {r : Requirement} (hr : r ∈ p.requirements)
    (hi : r.isInternal = false) :
    lock.Links u problem ⟨p.dependerRoot problem.root r, r.project.root, r.constraint⟩ := by
  rcases rooted_of_reached h r hr hi with hstem | ⟨sel, hs, hstem⟩
  · obtain ⟨path, hpath⟩ := hstem.nonempty
    obtain ⟨himports, howner⟩ := hstem.imported path hpath
    rw [dependerRoot_of_none hstem.depender, hstem.constraint]
    exact .base himports howner
  · obtain ⟨path, hpath⟩ := hstem.nonempty
    obtain ⟨howner, hplace, r', hr', hroot, q, hq, hcarries⟩ := hstem.imported path hpath
    obtain ⟨manifest, hm, -, hconstraint⟩ := hstem.terms
    obtain ⟨d, hd, -, hsel⟩ := selected?_eq_some hs
    have hd' := mem_of_decision? hd
    rw [hsel] at hroot hcarries hplace hm
    rw [dependerRoot_of_some hstem.depender hd, hconstraint]
    have hreach : lock.Reaches u problem (p.lockedProject d) q :=
      (required_iff_reaches h hc hlock hd').1 (mem_packagesOf_of_mem hr' hroot hq)
    exact .outside hreach.mem hreach hcarries hplace howner hm

/-- In a finished search, each link is that of a requirement. -/
theorem exists_requirement_of_links (h : (u.solver problem options limits).Reached p)
    (hc : p.Complete) (hlock : p.LockedBy lock) {e : GraphEdge} (he : lock.Links u problem e) :
    ∃ r ∈ p.requirements, r.isInternal = false ∧
      e = ⟨p.dependerRoot problem.root r, r.project.root, r.constraint⟩ := by
  have hp := sound_of_reached h
  cases he with
  | @base path target hpath howner =>
    obtain ⟨root, hroot, r, hr, hproject, hconstraint, hi, -, hdepender⟩ := hp.base path hpath
    obtain rfl : target = root := by simpa [howner] using hroot
    refine ⟨r, hr, hi, ?_⟩
    rw [dependerRoot_of_none hdepender, hproject, hconstraint]
  | @outside entry package path target manifest hentry hreach hcarries hplace howner hm =>
    obtain ⟨d, hd, rfl⟩ := (hlock _).1 hentry
    have hrequired := (required_iff_reaches h hc hlock hd).2 hreach
    obtain ⟨sel, hs, hprovided⟩ := hp.exists_provided hc hrequired
    obtain ⟨i, hs'⟩ := hp.selected?_of_mem hd
    obtain rfl : selection i d = sel := by simpa [hs'] using hs
    obtain ⟨manifest', hm', -, hout⟩ := hprovided.imports hcarries
    obtain rfl : manifest = manifest' := by
      have hsame : (Except.ok manifest : Except SourceFault Manifest) = .ok manifest' :=
        hm.symm.trans hm'
      simpa using hsame
    obtain ⟨root, hroot, r, hr, hproject, hconstraint, hi, -, hdepender⟩ := hout hplace
    obtain rfl : target = root := by simpa [howner] using hroot
    obtain ⟨e, he, hsame, -⟩ := selected?_eq_some hs
    refine ⟨r, hr, hi, ?_⟩
    rw [dependerRoot_of_some hdepender he, hproject, hconstraint, hsame]
    rfl

theorem Sound.projects_perm (hp : p.Sound u problem) (hc : p.Complete) (hordered : p.Ordered)
    (hrooted : p.Rooted u problem)
    (hlock : Lock.ofProjects (p.decisions.map p.lockedProject) = .ok lock) :
    (p.graph problem.root).projects.Perm
      (lock.projects.map fun entry => ⟨entry.project.root, some entry.version⟩) := by
  obtain ⟨-, hprojects, -⟩ := hp.graph_eq hc hordered hrooted
  rw [hprojects]
  have hnodes : p.decisions.map (fun d => (⟨d.root, some d.version⟩ : GraphNode)) =
      (p.decisions.map p.lockedProject).map
        fun entry => ⟨entry.project.root, some entry.version⟩ := by
    rw [List.map_map]
    rfl
  rw [hnodes]
  exact (Lock.ofProjects_perm hlock).map _

/-- A finished search locks no project without a package that is reached. -/
theorem exists_reaches (h : (u.solver problem options limits).Reached p) (hc : p.Complete)
    (hlock : p.LockedBy lock) {entry : LockedProject} (hentry : entry ∈ lock.projects) :
    ∃ path, lock.Reaches u problem entry path := by
  obtain ⟨d, hd, rfl⟩ := (hlock _).1 hentry
  obtain ⟨r, hr, hi, hproject⟩ := (sound_of_reached h).required d hd
  obtain ⟨q, hq, -⟩ := (rooted_of_reached h).exists_path hr hi
  have hrequired := mem_packagesOf_of_mem hr (congrArg Project.root hproject) hq
  exact ⟨q, (required_iff_reaches h hc hlock hd).1 hrequired⟩

/-- The root of the graph of a finished search leads to the locked projects, and to no others. -/
theorem mem_reachable_iff (h : (u.solver problem options limits).Reached p) (hc : p.Complete)
    (hlock : p.LockedBy lock) {root : String} :
    root ∈ (p.graph problem.root).reachableFromRoot ↔
      ∃ entry ∈ lock.projects, entry.project.root = root := by
  have hp := sound_of_reached h
  have hrooted := rooted_of_reached h
  obtain ⟨hroot, -, hedges⟩ := hp.graph_eq hc (ordered_of_reached h) hrooted
  rw [SolutionGraph.mem_reachableFromRoot]
  constructor
  -- the end of a path is the target of an edge, so it is decided on
  · rintro ⟨hpath, hne⟩
    obtain rfl | ⟨source, -, hleads⟩ := hpath.cases_tail
    · exact absurd rfl hne
    · obtain ⟨constraint, he⟩ := SolutionGraph.leads_iff.1 hleads
      obtain ⟨r, hr, -, heq⟩ := (hedges _).1 he
      obtain ⟨d, hd, hdroot⟩ := hc.exists_decision hr
      rw [GraphEdge.mk.injEq] at heq
      refine ⟨p.lockedProject d, (hlock _).2 ⟨d, hd, rfl⟩, ?_⟩
      rw [heq.2.1, ← hdroot]
      rfl
  · rintro ⟨entry, hentry, rfl⟩
    obtain ⟨path, hreach⟩ := exists_reaches h hc hlock hentry
    obtain ⟨d, hd, rfl⟩ := (hlock _).1 hentry
    constructor
    · refine hreach.leads hroot fun e he => ?_
      exact (hedges e).2 (exists_requirement_of_links h hc hlock he)
    · rw [hroot]
      exact hp.root_ne hrooted hd

end PartialSolution

/-- A solution locks only what is reached from the problem, and its graph has exactly the locked
projects and the links between them. -/
theorem Provider.isExact_of_solve {p : Provider} {problem : Problem} {options : SolveOptions}
    {solution : Solution} (h : (p.solve problem options).1 = .ok solution) :
    solution.IsExact p.world problem := by
  rcases p.solve_eq problem options with he | he
  · simp [he] at h
  · rw [he] at h
    obtain ⟨search, hvisits, hwaiting, hsol⟩ := Solver.run_ok h
    obtain ⟨lock, hlock, heq, -⟩ := Solution.ofSearch_ok hsol
    have hgraph := Solution.ofSearch_graph hsol
    have hreached := hvisits.grounded.reached
    have hc := PartialSolution.complete_of_waiting hwaiting
    have hp := PartialSolution.sound_of_reached hreached
    have hrooted := PartialSolution.rooted_of_reached hreached
    have hordered := PartialSolution.ordered_of_reached hreached
    have hlocked : search.chosen.LockedBy solution.lock := by
      intro entry
      obtain ⟨-, hmem⟩ := Lock.ofProjects_ok hlock
      rw [heq, hmem, List.mem_map]
    obtain ⟨hroot, -, hedges⟩ := hp.graph_eq hc hordered hrooted
    refine ⟨?reached, ?only, ?root, ?projects, ?edges, ?reachable⟩
    case reached =>
      intro entry hentry relative hrelative
      obtain ⟨package, hrel, -, hreach⟩ :=
        PartialSolution.exists_reached hreached hc hlocked hentry hrelative
      exact ⟨package, hrel, hreach.skips_eq_false, hreach⟩
    case only =>
      intro entry hentry tree package relative htree hrel hrelative honly
      obtain ⟨other, hrel', hcontains, hreach⟩ :=
        PartialSolution.exists_reached hreached hc hlocked hentry hrelative
      obtain rfl : other = package := honly other (hcontains tree htree) hrel'
      exact hreach
    case root =>
      rw [hgraph, hroot]
    case projects =>
      have hperm := hp.projects_perm hc hordered hrooted hlock
      rw [hgraph, heq]
      exact hperm
    case edges =>
      intro e
      rw [hgraph, hedges e]
      constructor
      · rintro ⟨r, hr, hi, rfl⟩
        exact PartialSolution.links_of_requirement hreached hc hlocked hr hi
      · exact PartialSolution.exists_requirement_of_links hreached hc hlocked
    case reachable =>
      intro root
      rw [hgraph]
      exact PartialSolution.mem_reachable_iff hreached hc hlocked

/-- The projects of the toolchain are the nodes, and their imports are the edges. -/
theorem Provider.isExact_of_toolchain : ∃ solution,
    ((Provider.new .withToolchain).solve .usingToolchain .keep).1 = .ok solution ∧
      (∀ entry, entry ∈ solution.lock.projects ↔ entry ∈ LockedProject.toolchain) ∧
        solution.graph.edges = GraphEdge.toolchain ∧
          solution.IsExact .withToolchain .usingToolchain := by
  obtain ⟨solution, hsolve, hlocked, hedges⟩ := Universe.exists_solve_withToolchain
  exact ⟨solution, hsolve, hlocked, hedges, isExact_of_solve hsolve⟩

end Depsolve
