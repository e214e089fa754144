import Depsolve.Proofs.Solve.Links
import Depsolve.Proofs.Solve.Nesting
import Depsolve.Proofs.Solve.Runs
import Depsolve.Proofs.Universe.Roots

/-!
# What stops a search

A search over a plain universe that is stopped by something that cannot be looked up has a cause in
the universe (`Universe.Causes`): an import that the problem leads to (`Universe.LeadsTo`) is in no
project, or the project that it asks for cannot be reached, in itself or in its source. Projects and
versions are always found, for a project is only required by a root that owns some path, and a
candidate always has a revision that is there (`Universe.Has`).
-/

namespace Depsolve

variable {u : Universe} {problem : Problem} {options : SolveOptions} {limits : Limits}

namespace Universe

/-! ## What a problem leads to -/

/-- An import under a manifest asks for a project: the path belongs to its root, and it is to come
from where the terms say. -/
def AsksFor (u : Universe) (problem : Problem) (manifest : Manifest) (path : String)
    (p : Project) : Prop :=
  u.rootOf path = .ok p.root ∧ p.source = (problem.termsFor manifest p.root).source

/-- The imports that a problem leads to, each with the manifest that it stands under: those of the
problem, and those that lead out of a version of a project that another such import asks for. -/
inductive LeadsTo (u : Universe) (problem : Problem) : Manifest → String → Prop
  | base {path : String} : path ∈ problem.imports → LeadsTo u problem problem.manifest path
  | further {manifest manifest' : Manifest} {path path' package : String} {p : Project}
      {v : Version} :
      LeadsTo u problem manifest path → u.AsksFor problem manifest path p →
      u.manifestOf p v = .ok manifest' → u.Carries p v package path' →
      problem.place p.root path' = .outside → LeadsTo u problem manifest' path'

/-- A project is asked for by an import that a problem leads to. -/
def Requires (u : Universe) (problem : Problem) (p : Project) : Prop :=
  ∃ manifest path, u.LeadsTo problem manifest path ∧ u.AsksFor problem manifest path p

variable {p : Project}

theorem Requires.owns (h : u.Requires problem p) : u.Owns p.root := by
  obtain ⟨-, path, -, hroot, -⟩ := h
  exact ⟨path, hroot⟩

theorem Requires.leadsTo (h : u.Requires problem p) {v : Version} {manifest : Manifest}
    {package path : String} (hm : u.manifestOf p v = .ok manifest)
    (hcarries : u.Carries p v package path) (hplace : problem.place p.root path = .outside) :
    u.LeadsTo problem manifest path := by
  obtain ⟨manifest', path', hleads, hasks⟩ := h
  exact .further hleads hasks hm hcarries hplace

/-! ## Causes -/

/-- A project that some path belongs to is served, unless it or its source cannot be reached. -/
theorem snapshots_eq_error {e : SourceFault} (h : u.snapshots p = .error e)
    (howns : u.Owns p.root) :
    e = .backend p.root "repository is unreachable" ∧
      (p.location ∈ u.unreachable ∨ p.root ∈ u.unreachable) := by
  unfold snapshots at h
  split at h
  · rename_i hunreachable
    rw [Bool.or_eq_true, SortedSet.contains_iff_mem, SortedSet.contains_iff_mem] at hunreachable
    exact ⟨(Except.error.inj h).symm, hunreachable⟩
  · rename_i hreachable
    -- the root is not one that cannot be reached, so it is a project
    rw [Bool.or_eq_true, SortedSet.contains_iff_mem, SortedSet.contains_iff_mem] at hreachable
    have hroot : p.root ∈ u.projects.keys := by
      refine (List.mem_append.1 howns.mem_roots).resolve_right fun hmem => hreachable (.inr ?_)
      exact SortedSet.mem_toList.1 hmem
    obtain ⟨⟨root, snapshots⟩, hmem, hkey⟩ := List.mem_map.1 hroot
    obtain rfl : root = p.root := hkey
    rw [SortedMap.get?_eq_some_iff.2 hmem] at h
    cases hlocation : u.projects.get? p.location <;> simp [hlocation] at h

/-- A fault of the source that the universe gives cause for. -/
inductive Causes (u : Universe) (problem : Problem) : SourceFault → Prop
  /-- The problem leads to an import that no root covers. -/
  | unowned {manifest : Manifest} {path : String} : u.LeadsTo problem manifest path →
      (∀ root ∈ u.projects.keys ++ u.unreachable.toList, ImportPath.covers root path = false) →
      Causes u problem (.rootUnknown path "no known project contains this path")
  /-- The problem leads to a project that cannot be reached, or the source that it is to
  come from cannot. -/
  | unreachable {p : Project} :
      u.Requires problem p → p.location ∈ u.unreachable ∨ p.root ∈ u.unreachable →
      Causes u problem (.backend p.root "repository is unreachable")

theorem causes_of_rootOf {manifest : Manifest} {path : String} {e : SourceFault}
    (hleads : u.LeadsTo problem manifest path) (h : u.rootOf path = .error e) :
    u.Causes problem e := by
  obtain ⟨rfl, hnone⟩ := rootOf_eq_error h
  exact .unowned hleads hnone

theorem causes_of_snapshots {e : SourceFault} (hrequires : u.Requires problem p)
    (h : u.snapshots p = .error e) : u.Causes problem e := by
  obtain ⟨rfl, hunreachable⟩ := snapshots_eq_error h hrequires.owns
  exact .unreachable hrequires hunreachable

end Universe

namespace PartialSolution

variable {p : PartialSolution}

/-- A requirement on another project is one of a project that the problem leads to, if the decisions
are on such projects. -/
theorem Rooted.requires (hrooted : p.Rooted u problem)
    (hselected : ∀ sel, p.selected? sel.project.root = some sel → u.Requires problem sel.project)
    {r : Requirement} (hr : r ∈ p.requirements) (hi : r.isInternal = false) :
    u.Requires problem r.project := by
  rcases hrooted r hr hi with hstem | ⟨sel, hs, hstem⟩
  · obtain ⟨path, hpath⟩ := hstem.nonempty
    obtain ⟨himports, howner⟩ := hstem.imported path hpath
    exact ⟨_, path, .base himports, howner, hstem.source⟩
  · obtain ⟨path, hpath⟩ := hstem.nonempty
    obtain ⟨howner, hplace, -, -, -, q, -, hcarries⟩ := hstem.imported path hpath
    obtain ⟨manifest, hm, hsource, -⟩ := hstem.terms
    exact ⟨manifest, path, (hselected sel hs).leadsTo hm hcarries hplace, howner, hsource⟩

/-- Whatever is required of other projects in a search, the problem leads to. -/
theorem requires_of_reached (h : (u.solver problem options limits).Reached p) {r : Requirement}
    (hr : r ∈ p.requirements) (hi : r.isInternal = false) : u.Requires problem r.project := by
  induction h generalizing r with
  | base hb =>
    refine (rooted_of_reached (.base hb)).requires (fun sel hs => ?_) hr hi
    rw [selected?_eq_none_iff.2 (by simp)] at hs
    exact nomatch hs
  | @push p f v added hreached ho ha ih =>
    have hp := sound_of_reached hreached
    refine (rooted_of_reached (.push hreached ho ha)).requires (fun sel hs => ?_) hr hi
    -- what is decided on was required before
    obtain ⟨r', hr', hi', hproject⟩ := hp.required_of_push ho hs
    exact hproject ▸ ih hr' hi'

theorem requires_of_waiting (h : (u.solver problem options limits).Reached p) {project : Project}
    {requirements : List Requirement} (hmem : (project, requirements) ∈ p.waiting) :
    u.Requires problem project := by
  obtain ⟨r, hr, hi, hproject⟩ := (sound_of_reached h).required_of_waiting hmem
  exact hproject ▸ requires_of_reached h hr hi

end PartialSolution

namespace Solver

theorem baseRequirements_causes {e : Stop}
    (h : (u.solver problem options limits).baseRequirements.outcome = .error e) :
    ∃ cause, u.Causes problem cause ∧ e = .ofLookup cause := by
  obtain ⟨cause, he, path, hpath, hroot⟩ := baseRequirements_stop h
  exact ⟨cause, Universe.causes_of_rootOf (.base hpath) hroot, he⟩

section Reached

variable {p : PartialSolution} (hp : (u.solver problem options limits).Reached p) {e : Stop}

include hp

/-- Picking the next project stops only where one cannot be reached. -/
theorem choose_causes (h : ((u.solver problem options limits).choose p).outcome = .error e) :
    ∃ cause, u.Causes problem cause ∧ e = .ofLookup cause := by
  obtain ⟨project, requirements, cause, hmem, hs, he⟩ := chooseFrom_stop h
  exact ⟨cause, Universe.causes_of_snapshots (PartialSolution.requires_of_waiting hp hmem) hs, he⟩

/-- What is selected on a trial is on the project of the frame or was decided on before; the problem
leads to it and it has packages. -/
theorem requires_of_trial {f : Frame} {v : Version}
    (ho : (u.solver problem options limits).Opens p f.project (v :: f.candidates)) {root : String}
    {sel : Selected} (hs : (p.trial f v).chosen.selected? root = some sel) :
    u.Requires problem sel.project ∧ ∃ tree, u.packagesOf sel.project sel.version = .ok tree := by
  have hsound := PartialSolution.sound_of_reached hp
  constructor
  · obtain ⟨r, hr, hi, hproject⟩ := hsound.required_of_push ho hs
    exact hproject ▸ PartialSolution.requires_of_reached hp hr hi
  · obtain ⟨d, hd, -, hsel⟩ := PartialSolution.selected?_eq_some hs
    rw [hsel]
    rcases PartialSolution.decision?_push_eq hd with ⟨-, hd⟩ | ⟨-, rfl⟩
    -- a decision made before
    · exact (hsound.present d (PartialSolution.mem_of_decision? hd)).exists_packagesOf
    -- the candidate on trial
    · obtain ⟨candidates, hoffers, hsuffix⟩ := ho.offers
      exact (hoffers.present v (hsuffix.subset List.mem_cons_self)).exists_packagesOf

/-- An attempt that has depth enough stops only at an import that belongs to nobody. -/
theorem attempt_causes (hdepth : u.importCount < limits.depth) {f : Frame} {v : Version}
    (ho : (u.solver problem options limits).Opens p f.project (v :: f.candidates))
    (h : ((u.solver problem options limits).attempt p f v).outcome = .error e) :
    ∃ cause, u.Causes problem cause ∧ e = .ofLookup cause := by
  have hfits : Task.Fits u
      (.expand (p.next f v) (packagesOf (p.requirementsOn f.project.root)) .empty)
      (p.trial f v) := attempt_fits ho.selected?
  cases attempt_stopsFor h with
  | exhausted => exact absurd h (attempt_not_exhausted hdepth ho.selected?)
  | unowned hsel hcarries hplace hroot =>
    obtain ⟨hrequires, tree, htree⟩ := requires_of_trial hp ho (hsel hfits)
    obtain ⟨manifest, hm⟩ := Universe.exists_manifestOf htree
    exact ⟨_, Universe.causes_of_rootOf (hrequires.leadsTo hm hcarries hplace) hroot, rfl⟩
  | unanswered hsel hpackages =>
    obtain ⟨-, tree, htree⟩ := requires_of_trial hp ho (hsel hfits)
    rw [htree] at hpackages
    exact nomatch hpackages

end Reached

/-- A step of a search stops only for a cause in the universe, or for there being no solution. -/
theorem Grounded.step_causes (hdepth : u.importCount < limits.depth) {search : Search}
    (hg : (u.solver problem options limits).Grounded search) {e : Stop}
    (h : ((u.solver problem options limits).step search).outcome = .error e) :
    (∃ cause, u.Causes problem cause ∧ e = .ofLookup cause) ∨
      ∃ root conflicts, e = .fault (.unsolvable root conflicts) := by
  have hp := hg.reached
  have hsteps := steps u problem options limits search
  rw [h] at hsteps
  generalize hres : (Except.error e : Except Stop Progress) = res at hsteps
  have hjump : ∀ {root culprits conflicts},
      Progress.ofJump (search.backjump root culprits conflicts) = .error e →
        ∃ root conflicts, e = .fault (.unsolvable root conflicts) := by
    intro root culprits conflicts hj
    obtain ⟨fault, herror, rfl⟩ := Progress.ofJump_eq_error hj
    obtain ⟨rfl, -⟩ := Search.backjump_error herror
    exact ⟨_, _, rfl⟩
  cases hsteps with
  | complete => simp at hres
  | select => simp at hres
  | prune => simp at hres
  | accept => simp at hres
  | reject => simp at hres
  | unanswered hphase hc =>
    obtain rfl : e = _ := by simpa using hres
    exact .inl (choose_causes hp hc)
  | stuck => exact .inr (hjump hres.symm)
  | spent => exact .inr (hjump hres.symm)
  | @halt f v left memo e' hphase hcand hc ha =>
    obtain rfl : e = e' := by simpa using hres
    have ho := hg.opens f hphase
    rw [hcand] at ho
    exact .inl (attempt_causes (f := f.leaving left) hp hdepth ho ha)

end Solver

end Depsolve
