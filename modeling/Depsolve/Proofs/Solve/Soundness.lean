import Depsolve.Proofs.Solve.Runs
import Depsolve.Proofs.Source.Faithful

/-!
# Solutions are sound

`Lock.IsClosed` says that a lock is an assignment under which everything that the problem and the
locked packages import is provided, on the terms that apply. `Provider.lock_isClosed_of_solve`
proves it of every solution.
-/

namespace Depsolve

variable {u : Universe} {problem : Problem} {options : SolveOptions} {limits : Limits}

/-! ## Locks -/

namespace Lock

/-- A lock provides for a path that is imported under a manifest: the project that owns the path is
locked at an accepted version from the place that the terms name, and the package is among those
locked. -/
def Provides (u : Universe) (problem : Problem) (lock : Lock) (manifest : Manifest)
    (path : String) : Prop :=
  ∃ target entry relative, u.rootOf path = .ok target ∧
    entry ∈ lock.projects ∧ entry.project.root = target ∧
    (problem.termsFor manifest target).constraint.admits entry.version = true ∧
    entry.project.location =
      (⟨target, (problem.termsFor manifest target).source⟩ : Project).location ∧
    ImportPath.relative? target path = some relative ∧ relative ∈ entry.packages

/-- A package of a locked project is there, and what it imports is locked in the same project or
provided for. -/
def Supports (u : Universe) (problem : Problem) (lock : Lock) (entry : LockedProject)
    (relative : String) : Prop :=
  ∃ tree manifest package imports, u.packagesOf entry.project entry.version = .ok tree ∧
    u.manifestOf entry.project entry.version = .ok manifest ∧
    ImportPath.relative? entry.project.root package = some relative ∧
    tree.imports? package = some imports ∧ ∀ path ∈ imports, problem.skips path = false →
      if ImportPath.covers entry.project.root path then
        ∃ inside, ImportPath.relative? entry.project.root path = some inside ∧
          inside ∈ entry.packages
      else lock.Provides u problem manifest path

/-- A lock is a closed and consistent assignment of versions. -/
structure IsClosed (u : Universe) (problem : Problem) (lock : Lock) : Prop where
  ascending : lock.projects.Pairwise fun a b => a.project.root < b.project.root
  base : ∀ package imports, problem.packages.imports? package = some imports →
    problem.manifest.isIgnored package = false → ∀ path ∈ imports, problem.skips path = false →
      lock.Provides u problem problem.manifest path
  closed : ∀ entry ∈ lock.projects, ∀ relative ∈ entry.packages,
    lock.Supports u problem entry relative

end Lock

/-! ## The imports of a problem -/

theorem Problem.mem_imports {path : String} :
    path ∈ problem.imports ↔ ∃ package imports, problem.packages.imports? package = some imports ∧
      problem.manifest.isIgnored package = false ∧ path ∈ imports ∧ problem.skips path = false := by
  -- the imports are collected package by package
  have hfold : ∀ (l : List (String × SortedSet String)) (found : SortedSet String),
      path ∈ l.foldl (fun found (x : String × SortedSet String) =>
          found.union (problem.importsOf x.1 x.2)) found ↔
        path ∈ found ∨ ∃ x ∈ l, path ∈ problem.importsOf x.1 x.2 := by
    intro l
    induction l with
    | nil => simp
    | cons x l ih =>
      intro found
      rw [List.foldl_cons, ih, SortedSet.mem_union, or_assoc]
      simp
  have h := hfold problem.packages.packages.entries .empty
  have himports : path ∈ problem.imports ↔
      ∃ x ∈ problem.packages.packages.entries, path ∈ problem.importsOf x.1 x.2 := by
    rw [← false_or (∃ x ∈ problem.packages.packages.entries, path ∈ problem.importsOf x.1 x.2),
      ← eq_false (SortedSet.not_mem_empty (a := path)), ← h]
    rfl
  rw [himports]
  constructor
  · rintro ⟨⟨package, imports⟩, hmem, hpath⟩
    unfold importsOf at hpath
    split at hpath
    · exact absurd hpath SortedSet.not_mem_empty
    · rename_i hignored
      obtain ⟨hpath, hskip⟩ := SortedSet.mem_filter.1 hpath
      exact ⟨package, imports, SortedMap.get?_eq_some_iff.2 hmem, by simpa using hignored, hpath,
        by simpa using hskip⟩
  · rintro ⟨package, imports, hget, hignored, hpath, hskip⟩
    refine ⟨(package, imports), SortedMap.get?_eq_some_iff.1 hget, ?_⟩
    rw [importsOf, hignored]
    exact SortedSet.mem_filter.2 ⟨hpath, by simpa using hskip⟩

/-! ## Finished searches -/

namespace PartialSolution

variable {p : PartialSolution}

/-- The project that a decision is on is selected for its root. -/
theorem Sound.selected?_of_mem (hp : p.Sound u problem) {d : Decision} (hd : d ∈ p.decisions) :
    ∃ i, p.selected? d.root = some (selection i d) := by
  obtain ⟨sel, hsel⟩ := exists_selected?_of_mem hd
  obtain ⟨e, he, hroot, heq⟩ := selected?_eq_some hsel
  obtain rfl : e = d :=
    List.inj_on_of_nodup_map hp.distinct (mem_of_decision? he) hd hroot
  exact ⟨sel.index, by rw [hsel, ← heq]⟩

/-- No required project is left without a decision. -/
def Complete (p : PartialSolution) : Prop :=
  ∀ r ∈ p.requirements, ∃ sel, p.selected? r.project.root = some sel

theorem complete_of_waiting (h : p.waiting = []) : p.Complete := by
  intro r hr
  cases hs : p.selected? r.project.root with
  | some sel => exact ⟨sel, rfl⟩
  | none => exact absurd h (exists_mem_waiting hr hs)

theorem mem_lockedProject_packages {d : Decision} {relative : String} :
    relative ∈ (p.lockedProject d).packages ↔
      ∃ package, package ∈ packagesOf (p.requirementsOn d.root) ∧
        ImportPath.relative? d.root package = some relative := by
  simp only [lockedProject, SortedSet.mem_ofList, List.mem_filterMap, SortedSet.mem_toList]

/-- A lock with the decisions of a finished search provides for what is required. -/
theorem Sound.lock_provides (hp : p.Sound u problem) (hc : p.Complete) {lock : Lock}
    (hlock : ∀ d ∈ p.decisions, p.lockedProject d ∈ lock.projects) {depender : Option Nat}
    {manifest : Manifest} {target path : String} (hr : u.rootOf path = .ok target)
    (ha : problem.Asked p.requirements depender manifest target path) :
    lock.Provides u problem manifest path := by
  obtain ⟨r, hmem, hproject, hconstraint, -, hpath, -⟩ := ha
  have hroot : r.project.root = target := by rw [hproject]
  obtain ⟨sel, hsel⟩ := hc r hmem
  obtain ⟨hadmits, hlocation⟩ := hp.accords.admitted r hmem sel hsel
  obtain ⟨d, hd, hdroot, heq⟩ := selected?_eq_some hsel
  obtain ⟨relative, hrel⟩ := ImportPath.exists_relative? (Universe.covers_of_rootOf hr)
  have hd' : d.root = target := hdroot.trans hroot
  refine ⟨target, p.lockedProject d, relative, hr, hlock d (mem_of_decision? hd), hd', ?_, ?_, hrel,
    mem_lockedProject_packages.2 ⟨path, ?_, by rw [hd']; exact hrel⟩⟩
  · rw [← hconstraint]
    rw [heq] at hadmits
    exact hadmits
  · rw [← hproject, ← hlocation, heq]
    rfl
  · refine Depsolve.mem_packagesOf.2 ⟨r, mem_requirementsOn.2 ⟨hmem, ?_⟩, hpath⟩
    rw [hroot, hd']

/-- The lock of a finished search is closed. -/
theorem Sound.isClosed (hp : p.Sound u problem) (hc : p.Complete) {lock : Lock}
    (hlock : Lock.ofProjects (p.decisions.map p.lockedProject) = .ok lock) :
    lock.IsClosed u problem := by
  obtain ⟨hascending, hmem⟩ := Lock.ofProjects_ok hlock
  have hdecided : ∀ d ∈ p.decisions, p.lockedProject d ∈ lock.projects := fun d hd =>
    (hmem _).2 (List.mem_map.2 ⟨d, hd, rfl⟩)
  refine ⟨hascending, fun package imports hi hignored path hpath hskip => ?_,
    fun entry hentry relative hrel => ?_⟩
  · obtain ⟨root, hroot, hasked⟩ := hp.base path
      (Problem.mem_imports.2 ⟨package, imports, hi, hignored, hpath, hskip⟩)
    exact hp.lock_provides hc hdecided hroot hasked
  · obtain ⟨d, hd, rfl⟩ := List.mem_map.1 ((hmem _).1 hentry)
    obtain ⟨package, hpackage, hrel⟩ := mem_lockedProject_packages.1 hrel
    obtain ⟨i, hsel⟩ := hp.selected?_of_mem hd
    obtain ⟨tree, manifest, imports, ht, hm, hi, himports⟩ :=
      hp.provided (selection i d) package hsel hpackage
    refine ⟨tree, manifest, package, imports, ht, hm, hrel, hi, fun path hpath hskip => ?_⟩
    -- an import is of the same project or of another
    split
    · rename_i hcovers
      have hplace : problem.place d.root path = .inside :=
        (Problem.place_of_not_skips hskip).trans (if_pos hcovers)
      obtain ⟨r, hr, hroot, hq⟩ := (himports path hpath).1 hplace
      obtain ⟨inside, hinside⟩ := ImportPath.exists_relative? hcovers
      exact ⟨inside, hinside, mem_lockedProject_packages.2 ⟨path,
        Depsolve.mem_packagesOf.2 ⟨r, mem_requirementsOn.2 ⟨hr, hroot⟩, hq⟩, hinside⟩⟩
    · rename_i hcovers
      have hplace : problem.place d.root path = .outside :=
        (Problem.place_of_not_skips hskip).trans (if_neg hcovers)
      obtain ⟨target, hr, hasked⟩ := (himports path hpath).2 hplace
      exact hp.lock_provides hc hdecided hr hasked

end PartialSolution

theorem Lock.IsClosed.withMeta {lock : Lock} (h : lock.IsClosed u problem)
    (solveMeta : Option SolveMeta) : ({ lock with solveMeta } : Lock).IsClosed u problem :=
  ⟨h.ascending, h.base, h.closed⟩

/-- A solution was made of a search that has nothing left to decide on. -/
theorem Provider.exists_search_of_solve {p : Provider} {problem : Problem} {options : SolveOptions}
    {solution : Solution} (h : (p.solve problem options).1 = .ok solution) :
    ∃ search, (p.world.solver problem options p.world.limits).Visits search ∧
      search.chosen.waiting = [] ∧ Solution.ofSearch problem options search = .ok solution := by
  rcases p.solve_eq problem options with he | he
  · simp [he] at h
  · rw [he] at h
    exact Solver.run_ok h

/-- If nobody cancels, a search that comes to its end gives a solution. -/
theorem Provider.exists_solve_of_search {p : Provider} (hcancel : p.isCancelled = false)
    (hplan : p.patience = none) (problem : Problem) (options : SolveOptions) {β : Type}
    (f : Search → β) {b : β} (h : ((p.world.solver problem options p.world.limits).searchBy
      (p.world.solver problem options p.world.limits).step).outcome.toOption.map f = some b) :
    ∃ search solution, f search = b ∧ (p.solve problem options).1 = .ok solution ∧
      Solution.ofSearch problem options search = .ok solution := by
  obtain ⟨search, hsearch, rfl⟩ := Option.map_eq_some_iff.1 h
  have hfound : ((p.world.solver problem options p.world.limits).searchBy
      (p.world.solver problem options p.world.limits).step).outcome = .ok search := by
    cases hout : ((p.world.solver problem options p.world.limits).searchBy
      (p.world.solver problem options p.world.limits).step).outcome with
    | error stop => simp [hout, Except.toOption] at hsearch
    | ok found =>
      rw [hout] at hsearch
      exact congrArg _ (Option.some.inj hsearch)
  obtain ⟨hvisits, -⟩ := Solver.searchBy_ok Solver.walks_step hfound
  have hp := PartialSolution.sound_of_reached (Solver.Visits.grounded hvisits).reached
  obtain ⟨solution, hrun⟩ := Solver.exists_runBy_ok hfound hp.distinct
  obtain ⟨search', hfound', hsol⟩ := Solver.exists_searchBy_of_runBy_ok hrun
  obtain rfl : search = search' := by
    rw [hfound] at hfound'
    exact Except.ok.inj hfound'
  refine ⟨search, solution, rfl, ?_, hsol⟩
  rw [solve_eq_of_calm hcancel hplan, Solver.run_eq_runBy]
  exact hrun

/-- The lock of every solution is a closed and consistent assignment of versions. -/
theorem Provider.lock_isClosed_of_solve {p : Provider} {problem : Problem} {options : SolveOptions}
    {solution : Solution} (h : (p.solve problem options).1 = .ok solution) :
    solution.lock.IsClosed p.world problem := by
  rcases p.solve_eq problem options with he | he
  · simp [he] at h
  · rw [he] at h
    obtain ⟨search, hvisits, hwaiting, hsol⟩ := Solver.run_ok h
    obtain ⟨lock, hlock, heq, -⟩ := Solution.ofSearch_ok hsol
    rw [heq]
    exact ((PartialSolution.sound_of_reached hvisits.grounded.reached).isClosed
      (PartialSolution.complete_of_waiting hwaiting) hlock).withMeta _

/-- The constraint for all versions with a major number. -/
def Constraint.ofMajor (major : Nat) : Constraint :=
  .semver ⟨[⟨[⟨.caret, major, .none⟩]⟩]⟩

/-- A universe with a tool, a library that the tool imports, a fork of the library, and a base that
the library imports and that imports a part of the tool. Before its release the base wanted another
branch of the tool. -/
def Universe.withToolchain : Universe :=
  let tool : Snapshot :=
    ((Snapshot.bare (.tag "v1.0.0") ⟨"a1"⟩).withPackage "."
      (.ofList ["example.com/lib"])).withPackage "sub" .empty
  let library (label : Label) (revision : Revision) : Snapshot :=
    (Snapshot.bare label revision).withPackage "." (.ofList ["example.com/base", "fmt"])
  let base (label : Label) (revision : Revision) : Snapshot :=
    (Snapshot.bare label revision).withPackage "."
      (.ofList ["example.com/tool/sub", "example.com/old"])
  (((Universe.empty.register "example.com/tool"
    [tool.withTerms "example.com/lib" ⟨none, .ofMajor 2⟩, Snapshot.bare .commit ⟨"a0"⟩]).register
    "example.com/lib" [library (.tag "v2.0.0") ⟨"b1"⟩]).register "example.com/fork"
    [library (.branch "main" true) ⟨"c1"⟩, library .commit ⟨"c0"⟩]).register "example.com/base"
    [base (.tag "v1.0.0") ⟨"d1"⟩,
      (base .commit ⟨"d0"⟩).withTerms "example.com/tool" ⟨none, .branch "next"⟩]

/-- A problem that imports the tool. -/
def Problem.importingTool : Problem :=
  (Problem.new "example.com/app" .empty).withImports (.ofList ["example.com/tool", "fmt"])

/-- A problem that imports the tool and an ignored package, and has locked the base before its
release. A constraint keeps it to the first major version of the tool, and an override to a revision
of the fork of the library. -/
def Problem.usingToolchain : Problem :=
  { Problem.importingTool.withImports (.ofList ["example.com/old"]) with
    manifest := { Manifest.empty with
      constraints := SortedMap.empty.insert "example.com/tool" ⟨none, .ofMajor 1⟩
      overrides :=
        SortedMap.empty.insert "example.com/lib" ⟨some "example.com/fork", .revision ⟨"c0"⟩⟩
      ignored := .ofList ["example.com/old"] }
    lock := some ⟨[⟨⟨"example.com/base", none⟩, .revision ⟨"d0"⟩, .empty⟩], none⟩ }

/-- The options that keep to the lock. -/
def SolveOptions.keep : SolveOptions :=
  ⟨.empty, false, false, false⟩

/-- The tool, the library and the base as they are locked. -/
def LockedProject.toolchain : List LockedProject :=
  [⟨⟨"example.com/tool", none⟩, .bound ⟨.ofTag "v1.0.0", ⟨"a1"⟩⟩, .ofList [".", "sub"]⟩,
    ⟨⟨"example.com/lib", some "example.com/fork"⟩, .revision ⟨"c0"⟩, .ofList ["."]⟩,
    ⟨⟨"example.com/base", none⟩, .bound ⟨.ofTag "v1.0.0", ⟨"d1"⟩⟩, .ofList ["."]⟩]

/-- The edges between the projects that are locked and the one that is solved. -/
def GraphEdge.toolchain : List GraphEdge :=
  [⟨"example.com/app", "example.com/tool", .ofMajor 1⟩,
    ⟨"example.com/tool", "example.com/lib", .revision ⟨"c0"⟩⟩,
    ⟨"example.com/lib", "example.com/base", .any⟩, ⟨"example.com/base", "example.com/tool", .any⟩]

theorem Universe.exists_solve_withToolchain : ∃ solution : Solution,
    ((Provider.new .withToolchain).solve .usingToolchain .keep).1 = .ok solution ∧
      (∀ entry, entry ∈ solution.lock.projects ↔ entry ∈ LockedProject.toolchain) ∧
        solution.graph.edges = GraphEdge.toolchain := by
  -- sorting the lock does not evaluate, so it is the search that is run
  obtain ⟨search, solution, hfound, hsolve, hsol⟩ := Provider.exists_solve_of_search
    (p := .new .withToolchain) rfl rfl .usingToolchain .keep
    (fun search => (search.chosen.decisions.map search.chosen.lockedProject,
      (search.chosen.graph Problem.usingToolchain.root).edges))
    (b := (LockedProject.toolchain, GraphEdge.toolchain)) (by decide +kernel)
  obtain ⟨hdecided, hedges⟩ := Prod.mk.inj hfound
  obtain ⟨lock, hlock, heq, -⟩ := Solution.ofSearch_ok hsol
  refine ⟨solution, hsolve, fun entry => ?_, ?_⟩
  · rw [heq, (Lock.ofProjects_ok hlock).2, hdecided]
  · rw [Solution.ofSearch_graph hsol, hedges]

/-- The release of the tool is locked with both packages, the library at the revision of the fork
and the base at its release, and the lock is closed. -/
theorem Provider.lock_isClosed_of_toolchain : ∃ solution,
    ((Provider.new .withToolchain).solve .usingToolchain .keep).1 = .ok solution ∧
      (∀ entry, entry ∈ solution.lock.projects ↔ entry ∈ LockedProject.toolchain) ∧
        solution.lock.IsClosed .withToolchain .usingToolchain := by
  obtain ⟨solution, hsolve, hlocked, -⟩ := Universe.exists_solve_withToolchain
  exact ⟨solution, hsolve, hlocked, lock_isClosed_of_solve hsolve⟩

end Depsolve
