import Depsolve.Proofs.Solve.Exactness
import Depsolve.Proofs.Universe.Roots

/-!
# Which locked project provides an import

A path that the problem imports, or that a locked package imports of another project, is provided by
the project that owns it. A path that lies at or below the root of the project that imports it is
provided by that project, also where the path is owned by another project whose root lies below. So
each import is provided by its owner and by no other project just if locked packages import nothing
of a project nested in their own (`Lock.Attributes.oneOwner_iff`).

## Main definitions

- `Lock.OneOwner`: each import is locked in the project that owns it, and in no other.
- `Lock.OwnsInside`: what locked packages import inside of their projects is owned by
  those projects.
- `Lock.Attributes`: where imports are provided, of which `Provider.attributes_of_solve` proves that
  it holds of every solution.
-/

namespace Depsolve

variable {u : Universe} {problem : Problem} {options : SolveOptions} {limits : Limits}

/-- No other root lies below the root of a project. -/
def Universe.Undivided (u : Universe) (root : String) : Prop :=
  ∀ other ∈ u.projects.keys ++ u.unreachable.toList,
    ImportPath.covers root other = true → other = root

theorem Universe.Undivided.rootOf {root path : String} (h : u.Undivided root) (howns : u.Owns root)
    (hcovers : ImportPath.covers root path = true) : u.rootOf path = .ok root := by
  obtain ⟨owner, howner, hbelow⟩ := Universe.exists_rootOf_of_covers howns.mem_roots hcovers
  obtain rfl : owner = root := h owner (Universe.Owns.mem_roots ⟨path, howner⟩) hbelow
  exact howner

theorem LockedProject.Has.covers {entry : LockedProject} {path : String} (h : entry.Has path) :
    ImportPath.covers entry.project.root path = true := by
  obtain ⟨relative, hrel, -⟩ := h
  exact ImportPath.covers_of_relative? hrel

namespace Lock

variable {lock : Lock} {entry a b : LockedProject} {package path : String}

/-- The paths, none of them to skip, that the problem or locked packages import. -/
inductive Imports (u : Universe) (problem : Problem) (lock : Lock) : String → Prop
  | base {path : String} : path ∈ problem.imports → Imports u problem lock path
  | locked {entry : LockedProject} {package path : String} : lock.Reaches u problem entry package →
      u.Carries entry.project entry.version package path → problem.skips path = false →
      Imports u problem lock path

/-- Each path that is imported is locked in the project that owns it and in no other, and no path is
locked in two projects. -/
structure OneOwner (u : Universe) (problem : Problem) (lock : Lock) : Prop where
  provided : ∀ path, lock.Imports u problem path → ∃ entry, u.rootOf path = .ok entry.project.root ∧
    ∀ other, lock.Reaches u problem other path ↔ other = entry
  single : ∀ path a b, lock.Reaches u problem a path → lock.Reaches u problem b path → a = b

/-- What locked packages import at or below the roots of their projects is owned by those
projects. -/
def OwnsInside (u : Universe) (problem : Problem) (lock : Lock) : Prop :=
  ∀ entry package path, lock.Reaches u problem entry package →
    u.Carries entry.project entry.version package path →
      problem.place entry.project.root path = .inside → u.rootOf path = .ok entry.project.root

/-- Where a lock provides what is imported. -/
structure Attributes (u : Universe) (problem : Problem) (lock : Lock) : Prop where
  /-- The imports of the problem: in their owners. -/
  base : ∀ path ∈ problem.imports, ∃ entry, u.rootOf path = .ok entry.project.root ∧
    lock.Reaches u problem entry path
  /-- What is imported of another project: in its owner. -/
  outside : ∀ entry package path, lock.Reaches u problem entry package →
    u.Carries entry.project entry.version package path →
      problem.place entry.project.root path = .outside →
        ∃ other, u.rootOf path = .ok other.project.root ∧ lock.Reaches u problem other path
  /-- What is imported inside of a project: in that project, whoever owns it. -/
  inside : ∀ entry package path, lock.Reaches u problem entry package →
    u.Carries entry.project entry.version package path →
      problem.place entry.project.root path = .inside → lock.Reaches u problem entry path
  /-- The owner of a path lies at or below the root of each project in which the path is locked. -/
  below : ∀ entry path, lock.Reaches u problem entry path →
    ∃ owner, u.rootOf path = .ok owner ∧ ImportPath.covers entry.project.root owner = true
  /-- Imports have one owner each just if none is an import of a project nested in the
  importing one. -/
  oneOwner_iff : lock.OneOwner u problem ↔ lock.OwnsInside u problem
  /-- Where no project has another below its root, imports have one owner each, and no path is
  in two entries. -/
  undivided : (∀ entry ∈ lock.projects, u.Undivided entry.project.root) → lock.OneOwner u problem ∧
    ∀ path, ∀ a ∈ lock.projects, ∀ b ∈ lock.projects, a.Has path → b.Has path → a = b

theorem Reaches.owns (h : lock.Reaches u problem entry package) : u.Owns entry.project.root := by
  induction h with
  | base _ howner => exact ⟨_, howner⟩
  | inside _ _ _ _ ih => exact ih
  | outside _ _ _ howner => exact ⟨_, howner⟩

theorem Reaches.has (h : lock.Reaches u problem entry package) : entry.Has package := by
  cases h with
  | base _ _ _ hhas => exact hhas
  | inside _ _ _ hhas => exact hhas
  | outside _ _ _ _ _ hhas => exact hhas

theorem Reaches.imports (h : lock.Reaches u problem entry path) : lock.Imports u problem path := by
  have hskips := h.skips_eq_false
  cases h with
  | base hpath => exact .base hpath
  | inside hreach hcarries => exact .locked hreach hcarries hskips
  | outside hreach hcarries => exact .locked hreach hcarries hskips

theorem OwnsInside.rootOf (h : lock.OwnsInside u problem)
    (hreach : lock.Reaches u problem entry path) : u.rootOf path = .ok entry.project.root := by
  cases hreach with
  | base _ howner => exact howner
  | inside hreach hcarries hplace => exact h _ _ _ hreach hcarries hplace
  | outside _ _ _ howner => exact howner

theorem ownsInside_of_undivided (h : ∀ entry ∈ lock.projects, u.Undivided entry.project.root) :
    lock.OwnsInside u problem := by
  intro entry package path hreach _ hplace
  exact (h entry hreach.mem).rootOf hreach.owns (Problem.covers_of_inside hplace)

theorem OneOwner.ownsInside (h : lock.OneOwner u problem)
    (hinside : ∀ entry package path, lock.Reaches u problem entry package →
      u.Carries entry.project entry.version package path →
        problem.place entry.project.root path = .inside → lock.Reaches u problem entry path) :
    lock.OwnsInside u problem := by
  intro entry package path hreach hcarries hplace
  have hlocked := hinside entry package path hreach hcarries hplace
  obtain ⟨owner, howner, honly⟩ := h.provided path hlocked.imports
  obtain rfl : entry = owner := (honly entry).1 hlocked
  exact howner

end Lock

/-! ## Finished searches -/

namespace PartialSolution

variable {p : PartialSolution} {lock : Lock} {entry a b : LockedProject} {package path : String}

theorem Sound.eq_of_root (hp : p.Sound u problem) (hlock : p.LockedBy lock) (ha : a ∈ lock.projects)
    (hb : b ∈ lock.projects) (hroot : a.project.root = b.project.root) : a = b := by
  obtain ⟨d, hd, rfl⟩ := (hlock _).1 ha
  obtain ⟨e, he, rfl⟩ := (hlock _).1 hb
  obtain rfl : d = e := List.inj_on_of_nodup_map hp.distinct hd he hroot
  rfl

/-- In a finished search, what is required is reached, in the project of which it is required. -/
theorem exists_reaches_of_mem (h : (u.solver problem options limits).Reached p) (hc : p.Complete)
    (hlock : p.LockedBy lock) {r : Requirement} (hr : r ∈ p.requirements)
    (hpath : path ∈ r.packages) :
    ∃ entry, entry.project.root = r.project.root ∧ lock.Reaches u problem entry path := by
  obtain ⟨d, hd, hdroot⟩ := hc.exists_decision hr
  have hrequired := mem_packagesOf_of_mem hr hdroot.symm hpath
  exact ⟨p.lockedProject d, hdroot, (required_iff_reaches h hc hlock hd).1 hrequired⟩

/-- In a finished search, what a locked package imports is reached: in the same project,
or in the owner. -/
theorem exists_reaches_of_carries (h : (u.solver problem options limits).Reached p)
    (hc : p.Complete) (hlock : p.LockedBy lock) (hreach : lock.Reaches u problem entry package)
    (hcarries : u.Carries entry.project entry.version package path) :
    (problem.place entry.project.root path = .inside → lock.Reaches u problem entry path) ∧
      (problem.place entry.project.root path = .outside →
        ∃ other, u.rootOf path = .ok other.project.root ∧ lock.Reaches u problem other path) := by
  have hp := sound_of_reached h
  obtain ⟨d, hd, rfl⟩ := (hlock _).1 hreach.mem
  obtain ⟨sel, hs, hprovided⟩ :=
    hp.exists_provided hc ((required_iff_reaches h hc hlock hd).2 hreach)
  obtain ⟨i, hs'⟩ := hp.selected?_of_mem hd
  obtain rfl : selection i d = sel := by simpa [hs'] using hs
  obtain ⟨manifest, -, hin, hout⟩ := hprovided.imports hcarries
  constructor
  · intro hplace
    obtain ⟨r, hr, hroot, hpath⟩ := hin hplace
    exact (required_iff_reaches h hc hlock hd).1 (mem_packagesOf_of_mem hr hroot hpath)
  · intro hplace
    obtain ⟨target, howner, r, hr, hproject, -, -, hpath, -⟩ := hout hplace
    obtain ⟨other, hroot, hother⟩ := exists_reaches_of_mem h hc hlock hr hpath
    rw [hproject] at hroot
    exact ⟨other, by rw [howner, hroot], hother⟩

theorem exists_reaches_of_base (h : (u.solver problem options limits).Reached p) (hc : p.Complete)
    (hlock : p.LockedBy lock) (hpath : path ∈ problem.imports) :
    ∃ entry, u.rootOf path = .ok entry.project.root ∧ lock.Reaches u problem entry path := by
  obtain ⟨root, howner, r, hr, hproject, -, -, hq, -⟩ := (sound_of_reached h).base path hpath
  obtain ⟨entry, hroot, hentry⟩ := exists_reaches_of_mem h hc hlock hr hq
  rw [hproject] at hroot
  exact ⟨entry, by rw [howner, hroot], hentry⟩

/-- In a finished search, each import has one owner, if what is imported inside of
projects is their own. -/
theorem oneOwner_of_ownsInside (h : (u.solver problem options limits).Reached p) (hc : p.Complete)
    (hlock : p.LockedBy lock) (hinside : lock.OwnsInside u problem) : lock.OneOwner u problem := by
  have hp := sound_of_reached h
  have hsame : ∀ path a b, lock.Reaches u problem a path →
      lock.Reaches u problem b path → a = b := by
    intro path a b ha hb
    have hroots := (hinside.rootOf ha).symm.trans (hinside.rootOf hb)
    exact hp.eq_of_root hlock ha.mem hb.mem (Except.ok.inj hroots)
  refine ⟨fun path himports => ?_, hsame⟩
  obtain ⟨entry, howner, hentry⟩ :
      ∃ entry, u.rootOf path = .ok entry.project.root ∧ lock.Reaches u problem entry path := by
    cases himports with
    | base hpath => exact exists_reaches_of_base h hc hlock hpath
    | @locked entry package _ hreach hcarries hskips =>
      obtain ⟨hin, hout⟩ := exists_reaches_of_carries h hc hlock hreach hcarries
      rw [Problem.place_of_not_skips hskips] at hin hout
      split at hin
      · exact ⟨entry, hinside.rootOf (hin rfl), hin rfl⟩
      · rename_i hcovers
        exact hout (if_neg hcovers)
  refine ⟨entry, howner, fun other => ⟨fun hother => hsame path other entry hother hentry, ?_⟩⟩
  rintro rfl
  exact hentry

theorem attributes (h : (u.solver problem options limits).Reached p) (hc : p.Complete)
    (hlock : p.LockedBy lock) : lock.Attributes u problem := by
  have hp := sound_of_reached h
  have hinside : ∀ entry package path, lock.Reaches u problem entry package →
      u.Carries entry.project entry.version package path →
        problem.place entry.project.root path = .inside → lock.Reaches u problem entry path :=
    fun _ _ _ hreach hcarries => (exists_reaches_of_carries h hc hlock hreach hcarries).1
  refine ⟨?base, ?outside, hinside, ?below, ?iff, ?undivided⟩
  case base =>
    intro path hpath
    exact exists_reaches_of_base h hc hlock hpath
  case outside =>
    intro entry package path hreach hcarries hplace
    exact (exists_reaches_of_carries h hc hlock hreach hcarries).2 hplace
  case below =>
    intro entry path hreach
    exact Universe.exists_rootOf_of_covers hreach.owns.mem_roots hreach.has.covers
  case iff =>
    exact ⟨fun hone => hone.ownsInside hinside, oneOwner_of_ownsInside h hc hlock⟩
  case undivided =>
    intro hundivided
    refine ⟨oneOwner_of_ownsInside h hc hlock (Lock.ownsInside_of_undivided hundivided), ?_⟩
    intro path a ha b hb hpathA hpathB
    obtain ⟨_, hreachA⟩ := exists_reaches h hc hlock ha
    obtain ⟨_, hreachB⟩ := exists_reaches h hc hlock hb
    -- of two roots that cover a path one covers the other, and then they are the same
    rcases ImportPath.covers_or_covers hpathA.covers hpathB.covers with hcovers | hcovers
    · exact (hp.eq_of_root hlock hb ha (hundivided a ha _ hreachB.owns.mem_roots hcovers)).symm
    · exact hp.eq_of_root hlock ha hb (hundivided b hb _ hreachA.owns.mem_roots hcovers)

end PartialSolution

/-! ## Solutions -/

/-- A solution provides what is imported of other projects in the projects that own it, and what is
imported inside of a project in that project. -/
theorem Provider.attributes_of_solve {p : Provider} {problem : Problem} {options : SolveOptions}
    {solution : Solution} (h : (p.solve problem options).1 = .ok solution) :
    solution.lock.Attributes p.world problem := by
  obtain ⟨search, hvisits, hwaiting, hsol⟩ := exists_search_of_solve h
  exact PartialSolution.attributes hvisits.grounded.reached
    (PartialSolution.complete_of_waiting hwaiting) (PartialSolution.lockedBy_of_ofSearch hsol)

/-- A universe with a tool and a project nested in it, which provides a path that the tool has
a package for. -/
def Universe.withNested : Universe :=
  (Universe.empty.register "example.com/tool"
    [((Snapshot.bare (.tag "v1.0.0") ⟨"a1"⟩).withPackage "."
      (.ofList ["example.com/tool/nested/x"])).withPackage
      "nested/x" .empty]).register "example.com/tool/nested"
    [(Snapshot.bare (.tag "v1.0.0") ⟨"b1"⟩).withPackage "x" .empty]

/-- A problem that imports the tool and the nested project. -/
def Problem.importingNested : Problem :=
  (Problem.new "example.com/app" .empty).withImports
    (.ofList ["example.com/tool", "example.com/tool/nested/x"])

/-- The entry of the tool, with the package below the root of the nested project. -/
def LockedProject.tool : LockedProject :=
  ⟨⟨"example.com/tool", none⟩, .bound ⟨.ofTag "v1.0.0", ⟨"a1"⟩⟩, .ofList [".", "nested/x"]⟩

/-- The entry of the nested project. -/
def LockedProject.nested : LockedProject :=
  ⟨⟨"example.com/tool/nested", none⟩, .bound ⟨.ofTag "v1.0.0", ⟨"b1"⟩⟩, .ofList ["x"]⟩

theorem Universe.exists_solve_withNested : ∃ solution,
    ((Provider.new .withNested).solve .importingNested .keep).1 = .ok solution ∧
      ∀ entry, entry ∈ solution.lock.projects ↔ entry = .tool ∨ entry = .nested := by
  -- sorting the lock does not evaluate, so it is the search that is run
  obtain ⟨search, solution, hdecided, hsolve, hsol⟩ := Provider.exists_solve_of_search
    (p := .new .withNested) rfl rfl .importingNested .keep
    (fun search => search.chosen.decisions.map search.chosen.lockedProject) (b := [.tool, .nested])
    (by decide +kernel)
  obtain ⟨lock, hlock, heq, -⟩ := Solution.ofSearch_ok hsol
  refine ⟨solution, hsolve, fun entry => ?_⟩
  rw [heq, (Lock.ofProjects_ok hlock).2, hdecided]
  simp

/-- What the tool and the problem import of the nested path is provided where it is. -/
theorem Provider.attributes_of_nested : ∃ solution,
    ((Provider.new .withNested).solve .importingNested .keep).1 = .ok solution ∧
      .tool ∈ solution.lock.projects ∧ .nested ∈ solution.lock.projects ∧
        solution.lock.Attributes .withNested .importingNested := by
  obtain ⟨solution, hsolve, hmem⟩ := Universe.exists_solve_withNested
  exact ⟨solution, hsolve, (hmem _).2 (.inl rfl), (hmem _).2 (.inr rfl), attributes_of_solve hsolve⟩

/-- The nested path is locked twice: in the nested project, which owns it and of which the problem
imports it, and in the tool, which imports it as its own. -/
theorem Provider.not_oneOwner_of_nested : ∃ solution,
    ((Provider.new .withNested).solve .importingNested .keep).1 = .ok solution ∧
      ¬ solution.lock.OneOwner .withNested .importingNested := by
  obtain ⟨solution, hsolve, hmem⟩ := Universe.exists_solve_withNested
  have hnested : solution.lock.Reaches .withNested .importingNested .nested
      "example.com/tool/nested/x" :=
    .base (SortedSet.contains_iff_mem.1 (by decide +kernel)) rfl ((hmem _).2 (.inr rfl))
      ⟨"x", by decide +kernel, SortedSet.contains_iff_mem.1 (by decide +kernel)⟩
  have htool : solution.lock.Reaches .withNested .importingNested .tool "example.com/tool" :=
    .base (SortedSet.contains_iff_mem.1 (by decide +kernel)) rfl ((hmem _).2 (.inl rfl))
      ⟨".", by decide +kernel, SortedSet.contains_iff_mem.1 (by decide +kernel)⟩
  have hcarries : Universe.withNested.Carries LockedProject.tool.project LockedProject.tool.version
      "example.com/tool" "example.com/tool/nested/x" :=
    ⟨_, .ofList ["example.com/tool/nested/x"], rfl, by decide +kernel,
      SortedSet.contains_iff_mem.1 (by decide +kernel)⟩
  have hinside : solution.lock.Reaches .withNested .importingNested .tool
      "example.com/tool/nested/x" :=
    .inside htool hcarries (by decide +kernel)
      ⟨"nested/x", by decide +kernel, SortedSet.contains_iff_mem.1 (by decide +kernel)⟩
  refine ⟨solution, hsolve, fun hone => ?_⟩
  have hsame := hone.single _ _ _ hnested hinside
  exact absurd (congrArg (·.project.root) hsame) (by decide)

end Depsolve
