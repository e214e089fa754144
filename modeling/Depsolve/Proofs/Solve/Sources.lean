import Depsolve.Proofs.Solve.Blame
import Depsolve.Proofs.Solve.Soundness

/-!
# Where the problem has its dependencies fetched from

Two definitions tell where a project is fetched from: `Problem.termsFor`, which the solver goes by
(`Problem.home`), and `Manifest.projectOf`, the project as the manifest sees it. To the former an
override counts as a whole, with or without a source; the latter takes the source of a constraint
where the override names none. They agree on a root just if no source is hidden there
(`Problem.home_eq_location_iff`), and then the solver locks the project from where the manifest sees
it (`Provider.location_eq_iff_of_solve`).
-/

namespace Depsolve

/-- The source that a constraint names for a project is hidden by an override that names none, and
it is another place than the root. -/
def Manifest.HidesSource (m : Manifest) (root : String) : Prop :=
  ∃ override constraint source, m.overrides.get? root = some override ∧ override.source = none ∧
    m.constraints.get? root = some constraint ∧ constraint.source = some source ∧ source ≠ root

variable {problem : Problem} {root : String}

theorem Manifest.location_projectOf (m : Manifest) (root : String) : (m.projectOf root).location =
    (((m.overrides.get? root).bind Terms.source).or
      ((m.constraints.get? root).bind Terms.source)).getD root := by
  cases h : (m.overrides.get? root).bind Terms.source <;> simp [projectOf, Project.location, h]

theorem Problem.home_eq (problem : Problem) (root : String) : problem.home root =
    (((problem.manifest.overrides.get? root).or (problem.manifest.constraints.get? root)).bind
      Terms.source).getD root := by
  unfold home termsFor Project.location
  rw [Option.orElse_eq_orElse, Option.orElse_eq_or]
  cases (problem.manifest.overrides.get? root).or (problem.manifest.constraints.get? root) <;> rfl

/-- Where a source is hidden, the problem requires the project from its root, and the manifest
sees it elsewhere. -/
theorem Problem.location_of_hidesSource (h : problem.manifest.HidesSource root) :
    problem.home root = root ∧ (problem.manifest.projectOf root).location ≠ root := by
  obtain ⟨override, constraint, source, hoverride, hnone, hconstraint, hsource, hne⟩ := h
  rw [home_eq, Manifest.location_projectOf, hoverride, hconstraint, Option.some_or,
    Option.bind_some, Option.bind_some, hnone, hsource, Option.none_or]
  exact ⟨rfl, hne⟩

/-- The problem requires a project from where its manifest sees it, just if no source is hidden. -/
theorem Problem.home_eq_location_iff :
    problem.home root = (problem.manifest.projectOf root).location ↔
      ¬ problem.manifest.HidesSource root := by
  constructor
  · intro heq hhides
    obtain ⟨hown, hseen⟩ := location_of_hidesSource hhides
    exact hseen (heq ▸ hown)
  intro hhides
  rw [home_eq, Manifest.location_projectOf]
  cases hoverride : problem.manifest.overrides.get? root with
  | none => rfl
  | some override =>
    rw [Option.some_or, Option.bind_some]
    cases hnone : override.source with
    | some source => rfl
    | none =>
      rw [Option.none_or]
      -- the constraint names no source, or the root itself
      cases hsource : (problem.manifest.constraints.get? root).bind Terms.source with
      | none => rfl
      | some source =>
        obtain ⟨constraint, hconstraint, hsource⟩ := Option.bind_eq_some_iff.1 hsource
        by_contra hne
        exact hhides ⟨override, constraint, source, hoverride, hnone, hconstraint, hsource,
          fun he => hne he.symm⟩

/-- A project that the problem imports is locked from where the problem requires it. -/
theorem Provider.exists_locked_of_solve {p : Provider} {options : SolveOptions}
    {solution : Solution} (h : (p.solve problem options).1 = .ok solution) {path : String}
    (hpath : path ∈ problem.imports) :
    ∃ entry ∈ solution.lock.projects, p.world.rootOf path = .ok entry.project.root ∧
      entry.project.location = problem.home entry.project.root := by
  obtain ⟨package, imports, hpackage, hignored, himported, hskips⟩ := Problem.mem_imports.1 hpath
  obtain ⟨root, entry, relative, hroot, hentry, rfl, -, hlocation, -⟩ :=
    (lock_isClosed_of_solve h).base package imports hpackage hignored path himported hskips
  exact ⟨entry, hentry, hroot, hlocation⟩

/-- The problem requires a project from where its manifest sees it just if no source is
hidden there; and this tells, for each project that the problem imports, whether a solution
locks it from there. -/
theorem Provider.location_eq_iff_of_solve (p : Provider) (problem : Problem)
    (options : SolveOptions) :
    (∀ root, problem.home root = (problem.manifest.projectOf root).location ↔
      ¬ problem.manifest.HidesSource root) ∧
    ∀ solution, (p.solve problem options).1 = .ok solution → ∀ path ∈ problem.imports,
      ∃ entry ∈ solution.lock.projects, p.world.rootOf path = .ok entry.project.root ∧
        (entry.project.location = (problem.manifest.projectOf entry.project.root).location ↔
          ¬ problem.manifest.HidesSource entry.project.root) := by
  refine ⟨fun root => Problem.home_eq_location_iff, fun solution h path hpath => ?_⟩
  obtain ⟨entry, hentry, hroot, hlocation⟩ := exists_locked_of_solve h hpath
  refine ⟨entry, hentry, hroot, ?_⟩
  rw [hlocation]
  exact Problem.home_eq_location_iff

/-- A tool, and a fork of it. -/
def Universe.withToolFork : Universe :=
  (Universe.empty.register "example.com/fork" [Snapshot.bare (.tag "v1.0.0") ⟨"b1"⟩]).register
    "example.com/tool" [Snapshot.bare (.tag "v1.0.0") ⟨"a1"⟩]

/-- A problem that imports the tool. Its constraint names the fork, and its override only a
version. -/
def Problem.hidingFork : Problem :=
  (Problem.new "example.com/app"
    ⟨.ofList [("example.com/tool", ⟨some "example.com/fork", .any⟩)],
      .ofList [("example.com/tool", ⟨none, .ofVersionText "^1.0.0"⟩)],
      .empty⟩).withImports (.ofList ["example.com/tool"])

theorem Problem.hidesSource_of_hidingFork : hidingFork.manifest.HidesSource "example.com/tool" :=
  ⟨_, _, "example.com/fork", rfl, rfl, rfl, rfl, by decide⟩

/-- The tool is locked from its root, and the manifest sees it at the fork. -/
theorem Provider.location_of_hidingFork : ∃ solution,
    ((Provider.new .withToolFork).solve .hidingFork .keep).1 = .ok solution ∧
      ∃ entry ∈ solution.lock.projects, entry.project.root = "example.com/tool" ∧
        entry.project.location ≠
          (Problem.hidingFork.manifest.projectOf entry.project.root).location := by
  have hroots : ((Provider.new .withToolFork).solve .hidingFork .keep).1.toOption.map
      (fun s => s.lock.projects.map (·.project.root)) = some ["example.com/tool"] := by
    decide +kernel
  obtain ⟨solution, h, hroots⟩ := exists_of_map_toOption hroots
  obtain ⟨-, hlocked⟩ := location_eq_iff_of_solve (.new .withToolFork) .hidingFork .keep
  have hpath : "example.com/tool" ∈ Problem.hidingFork.imports :=
    SortedSet.contains_iff_mem.1 (by decide +kernel)
  obtain ⟨entry, hentry, -, hiff⟩ := hlocked solution h _ hpath
  obtain hroot : entry.project.root = "example.com/tool" :=
    List.mem_singleton.1 (hroots ▸ List.mem_map_of_mem hentry)
  refine ⟨solution, h, entry, hentry, hroot, fun heq => hiff.1 heq ?_⟩
  rw [hroot]
  exact Problem.hidesSource_of_hidingFork

/-- The problem requires the tool from its root, and its manifest sees it at the fork. -/
theorem Problem.locations_of_hidingFork :
    hidingFork.home "example.com/tool" = "example.com/tool" ∧
      (hidingFork.manifest.projectOf "example.com/tool").location = "example.com/fork" := by
  decide +kernel

end Depsolve
