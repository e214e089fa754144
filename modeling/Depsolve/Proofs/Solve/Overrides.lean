import Depsolve.Proofs.Solve.Graph
import Depsolve.Proofs.Source.Pairs
import Depsolve.Proofs.Universe.Declarations

/-!
# Overrides

The terms that the problem's manifest sets in an override are the terms on its project, whoever
requires the project. What the manifests of other projects declare for it does not matter, neither
to the outcome (`Provider.solve_of_override`) nor to what is locked and drawn in the graph
(`Solution.FollowsOverrides`).

Behind the latter is that requirements on other projects are always on the terms that apply
(`PartialSolution.Rooted.onTerms`).
-/

namespace Depsolve

variable {u : Universe} {problem : Problem} {options : SolveOptions} {limits : Limits}

/-! ## The terms of requirements -/

/-- A requirement of one project on another is on the terms that some manifest sets in the
problem. -/
def Requirement.OnTerms (problem : Problem) (r : Requirement) : Prop :=
  r.isInternal = false →
    ∃ manifest, r.project.source = (problem.termsFor manifest r.project.root).source ∧
    r.constraint = (problem.termsFor manifest r.project.root).constraint

theorem PartialSolution.Rooted.onTerms {p : PartialSolution} (h : p.Rooted u problem) :
    ∀ r ∈ p.requirements, r.OnTerms problem := by
  intro r hr hi
  rcases h r hr hi with hstem | ⟨sel, -, hstem⟩
  · exact ⟨problem.manifest, hstem.source, hstem.constraint⟩
  · obtain ⟨manifest, -, hterms⟩ := hstem.terms
    exact ⟨manifest, hterms⟩

theorem Requirement.OnTerms.of_override {r : Requirement} (h : r.OnTerms problem)
    (hi : r.isInternal = false) {terms : Terms}
    (hterms : problem.manifest.overrides.get? r.project.root = some terms) :
    r.project.source = terms.source ∧ r.constraint = terms.constraint := by
  obtain ⟨manifest, hsource, hconstraint⟩ := h hi
  rw [problem.termsFor_of_override hterms] at hsource hconstraint
  exact ⟨hsource, hconstraint⟩

/-! ## Solutions -/

/-- A solution has overridden projects at versions that their overrides accept, from where the
overrides say, and whoever depends on them does so on the terms of the overrides. -/
structure Solution.FollowsOverrides (problem : Problem) (solution : Solution) : Prop where
  locked : ∀ entry ∈ solution.lock.projects, ∀ terms,
    problem.manifest.overrides.get? entry.project.root = some terms →
      terms.constraint.admits entry.version = true ∧ entry.project.source = terms.source
  edges : ∀ e ∈ solution.graph.edges, ∀ terms,
    problem.manifest.overrides.get? e.target = some terms → e.constraint = terms.constraint

theorem PartialSolution.Sound.locked_of_override {p : PartialSolution} (hp : p.Sound u problem)
    (hterms : ∀ r ∈ p.requirements, r.OnTerms problem) {d : Decision} (hd : d ∈ p.decisions)
    {terms : Terms} (h : problem.manifest.overrides.get? d.root = some terms) :
    terms.constraint.admits d.version = true ∧ d.frame.project.source = terms.source := by
  -- the project is required by another, on the terms of the override
  obtain ⟨r, hr, hi, hproject⟩ := hp.required d hd
  have hroot : r.project.root = d.root := congrArg Project.root hproject
  obtain ⟨hsource, hconstraint⟩ := (hterms r hr).of_override hi (hroot ▸ h)
  obtain ⟨i, hsel⟩ := hp.selected?_of_mem hd
  obtain ⟨hadmits, -⟩ := hp.accords.admitted r hr _ (hroot ▸ hsel)
  rw [hconstraint] at hadmits
  rw [hproject] at hsource
  exact ⟨hadmits, hsource⟩

theorem Provider.followsOverrides_of_solve {p : Provider} {solution : Solution}
    (h : (p.solve problem options).1 = .ok solution) : solution.FollowsOverrides problem := by
  obtain ⟨search, hvisits, hwaiting, hsol⟩ := exists_search_of_solve h
  obtain ⟨lock, hlock, heq, -⟩ := Solution.ofSearch_ok hsol
  have hreached := hvisits.grounded.reached
  have hp := PartialSolution.sound_of_reached hreached
  have hrooted := PartialSolution.rooted_of_reached hreached
  have hterms := hrooted.onTerms
  constructor
  · intro entry hentry terms hoverride
    rw [heq] at hentry
    obtain ⟨d, hd, rfl⟩ := List.mem_map.1 (((Lock.ofProjects_ok hlock).2 entry).1 hentry)
    exact hp.locked_of_override hterms hd hoverride
  · intro e he terms hoverride
    obtain ⟨-, -, hedges⟩ := hp.graph_eq (PartialSolution.complete_of_waiting hwaiting)
      (PartialSolution.ordered_of_reached hreached) hrooted
    rw [Solution.ofSearch_graph hsol, hedges] at he
    obtain ⟨r, hr, hi, rfl⟩ := he
    exact ((hterms r hr).of_override hi hoverride).2

/-! ## What others declare -/

/-- Universes that declare different terms for overridden roots only answer alike. -/
theorem Universe.Redeclares.answersAs {u u' : Universe} {roots : Set String}
    (h : u.Redeclares roots u')
    (hroots : ∀ root ∈ roots, ∃ terms, problem.manifest.overrides.get? root = some terms) :
    u.AnswersAs problem u' where
  versions p := (h.versions p).mono fun _ _ heq => congrArg _ heq
  hasRevision := h.hasRevision
  rootOf := Matches.rootOf h
  manifestOf p v _ := h.manifestOf hroots p v
  packagesOf p v _ := h.packagesOf p v

/-- What projects declare for overridden roots does not matter: over universes that differ in
nothing else, a problem has the same outcome, and every solution follows the overrides. -/
theorem Provider.solve_of_override {p p' : Provider} {roots : Set String}
    (h : p.world.Redeclares roots p'.world)
    (hroots : ∀ root ∈ roots, ∃ terms, problem.manifest.overrides.get? root = some terms)
    (hcancel : p.isCancelled = p'.isCancelled) (hpatience : p.patience = p'.patience)
    (options : SolveOptions) :
    (p.solve problem options).1 = (p'.solve problem options).1 ∧
      ∀ solution, (p.solve problem options).1 = .ok solution → solution.FollowsOverrides problem :=
  ⟨solve_eq_of_answersAs (h.answersAs hroots) h.limits hcancel hpatience options,
    fun _ hsolve => followsOverrides_of_solve hsolve⟩

/-- A universe with a tool that imports a library, for which it declares some terms. -/
def Universe.withTerms (terms : Terms) : Universe :=
  (Universe.empty.register "example.com/tool"
    [((Snapshot.bare (.tag "v1.0.0") ⟨"a1"⟩).withPackage "."
      (.ofList ["example.com/lib"])).withTerms "example.com/lib" terms]).register "example.com/lib"
    [Snapshot.bare (.tag "v1.0.0") ⟨"b1"⟩, Snapshot.bare .commit ⟨"b2"⟩]

/-- A problem that imports the tool and holds the library to its first release. -/
def Problem.holdingLibrary : Problem :=
  { Problem.importingTool with
    manifest := { Manifest.empty with
      overrides := SortedMap.empty.insert "example.com/lib" ⟨none, .revision ⟨"b1"⟩⟩ } }

/-- The library is locked whatever the tool declares for it: another revision, or another place. -/
theorem Provider.solve_of_held_library : ∃ solution : Solution,
    ((Provider.new (.withTerms ⟨none, .revision ⟨"b2"⟩⟩)).solve .holdingLibrary .keep).1 =
      .ok solution ∧
      ((Provider.new (.withTerms ⟨some "example.com/fork", .any⟩)).solve .holdingLibrary .keep).1 =
          .ok solution ∧
        (∃ e ∈ solution.graph.edges, e.target = "example.com/lib") ∧
          solution.FollowsOverrides .holdingLibrary := by
  have hredeclares : (Universe.withTerms ⟨none, .revision ⟨"b2"⟩⟩).Redeclares {"example.com/lib"}
      (.withTerms ⟨some "example.com/fork", .any⟩) := by
    have hsame : ∀ s : Snapshot, s.Redeclares {"example.com/lib"} s :=
      fun _ => ⟨rfl, rfl, rfl, fun _ _ => rfl⟩
    refine ⟨.cons ⟨rfl, .cons (hsame _) (.cons (hsame _) .nil)⟩
      (.cons ⟨rfl, .cons ⟨rfl, rfl, rfl, fun root hroot => ?_⟩ .nil⟩ .nil), rfl⟩
    have hne : root ≠ "example.com/lib" := hroot
    simp only [Snapshot.withTerms, SortedMap.get?_insert, if_neg hne]
  have hroots : ∀ root ∈ ({"example.com/lib"} : Set String), ∃ terms,
      Problem.holdingLibrary.manifest.overrides.get? root = some terms := by
    rintro root rfl
    exact ⟨_, rfl⟩
  obtain ⟨search, solution, htargets, hsolve, hsol⟩ := exists_solve_of_search
    (p := .new (.withTerms ⟨none, .revision ⟨"b2"⟩⟩)) rfl rfl .holdingLibrary .keep
    (fun search => (search.chosen.graph Problem.holdingLibrary.root).edges.map (·.target))
    (b := ["example.com/tool", "example.com/lib"]) (by decide +kernel)
  obtain ⟨heq, hfollows⟩ :=
    @solve_of_override _ (.new _) (.new _) _ hredeclares hroots rfl rfl .keep
  obtain ⟨e, he, htarget⟩ := List.mem_map.1 (htargets ▸ List.mem_cons_of_mem _ List.mem_cons_self :
    "example.com/lib" ∈ (search.chosen.graph Problem.holdingLibrary.root).edges.map (·.target))
  refine ⟨solution, hsolve, heq ▸ hsolve, ⟨e, ?_, htarget⟩, hfollows solution hsolve⟩
  rw [Solution.ofSearch_graph hsol]
  exact he

end Depsolve
