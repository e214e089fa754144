import Depsolve.Proofs.Universe.Answers
import Depsolve.Solve.Problem

/-!
# Assignments of versions

An assignment picks a project and a version for some project roots. This file says what a
problem needs under an assignment, and when an assignment is consistent, without reference to
how one is found.

## Main definitions

- `Picks`: an assignment of versions to project roots.
- `Picks.Needs`: the least set of packages that the problem's imports and the imports of needed
  packages lead to.
- `Picks.Asks`: the terms on which a root is required, by the problem or by a needed package.
- `Picks.Consistent`: every needed package is there, and every pick accords with the terms
  that are asked.
- `Version.StandsFor`: a version that can be taken in place of another.
-/

namespace Depsolve

/-- A package of a version of a project imports a path. -/
def Universe.Carries (u : Universe) (project : Project) (version : Version)
    (package path : String) : Prop :=
  ∃ tree imports, u.packagesOf project version = .ok tree ∧
    tree.imports? package = some imports ∧ path ∈ imports

/-- A project and a version for some project roots. -/
abbrev Picks := String → Option (Project × Version)

namespace Picks

variable (u : Universe) (problem : Problem) (picks : Picks)

/-- A package of the version picked for a root imports a path. -/
def Imports (root package path : String) : Prop :=
  ∃ project version, picks root = some (project, version) ∧
    u.Carries project version package path

/-- The packages, by root and full path, that the problem needs: those that it imports, and those
that needed packages import. -/
inductive Needs : String → String → Prop
  | base {root path : String} : path ∈ problem.imports → u.rootOf path = .ok root → Needs root path
  | inside {root package path : String} : Needs root package →
      picks.Imports u root package path → problem.place root path = .inside → Needs root path
  | outside {root package path target : String} : Needs root package →
      picks.Imports u root package path → problem.place root path = .outside →
      u.rootOf path = .ok target → Needs target path

/-- The terms on which a root is required: those of the problem, and those of the versions with a
needed package that imports from it. -/
inductive Asks : String → Terms → Prop
  | base {root path : String} : path ∈ problem.imports → u.rootOf path = .ok root →
      Asks root (problem.termsFor problem.manifest root)
  | outside {root package path target : String} {project : Project} {version : Version}
      {manifest : Manifest} : Needs u problem picks root package →
      picks.Imports u root package path → problem.place root path = .outside →
      u.rootOf path = .ok target → picks root = some (project, version) →
      u.manifestOf project version = .ok manifest → Asks target (problem.termsFor manifest target)

/-- An assignment under which everything that is needed is there and accords with all terms. -/
structure Consistent : Prop where
  rooted : ∀ {root project version}, picks root = some (project, version) → project.root = root
  /-- Each import of the problem belongs to some root. -/
  baseOwned : ∀ {path}, path ∈ problem.imports → ∃ root, u.rootOf path = .ok root
  /-- Each needed package is in the version picked for its root. -/
  provided : ∀ {root package}, picks.Needs u problem root package →
    ∃ project version tree imports, picks root = some (project, version) ∧
      u.packagesOf project version = .ok tree ∧ tree.imports? package = some imports
  /-- Each import of a needed package that leads out of the project belongs to some root. -/
  owned : ∀ {root package path}, picks.Needs u problem root package →
    picks.Imports u root package path → problem.place root path = .outside →
      ∃ target, u.rootOf path = .ok target
  /-- Each pick is of an accepted version from the place that is asked for. -/
  accords : ∀ {root terms project version}, picks.Asks u problem root terms →
    picks root = some (project, version) →
      terms.constraint.admits version = true ∧
        project.location = (⟨root, terms.source⟩ : Project).location

variable {u problem picks}

end Picks

namespace Version

/-- A version that may be taken in place of another: it is of the same revision, and every
constraint that accepts the other accepts it. -/
structure StandsFor (w v : Version) : Prop where
  revision : ∃ r, w.revision? = some r ∧ v.revision? = some r
  admits : ∀ c : Constraint, c.admits v = true → c.admits w = true

theorem StandsFor.refl {v : Version} {r : Revision} (h : v.revision? = some r) : v.StandsFor v :=
  ⟨⟨r, h, h⟩, fun _ => id⟩

theorem StandsFor.trans {x w v : Version} (h : x.StandsFor w) (h' : w.StandsFor v) :
    x.StandsFor v := by
  obtain ⟨r, hx, hw⟩ := h.revision
  obtain ⟨r', hw', hv⟩ := h'.revision
  obtain rfl : r = r' := Option.some.inj (hw.symm.trans hw')
  exact ⟨⟨r, hx, hv⟩, fun c hc => h.admits c (h'.admits c hc)⟩

theorem StandsFor.of_same {w v : Version} {r : Revision} (h : w.same v = true)
    (hv : v.revision? = some r) : w.StandsFor v :=
  ⟨⟨r, (revision?_eq_of_same h).trans hv, hv⟩, fun c hc => by
    rw [c.admits_eq_of_same h]
    exact hc⟩

/-- A named version stands for its bare revision. -/
theorem StandsFor.of_bare {w : Version} {r : Revision} (h : w.revision? = some r) :
    w.StandsFor (.revision r) :=
  ⟨⟨r, h, rfl⟩, fun c hc => by
    cases c with
    | any => rfl
    | revision r' =>
      obtain rfl : r = r' := by simpa [Constraint.admits, Version.revision?] using hc
      simpa [Constraint.admits] using h
    | branch name => simp [Constraint.admits, Version.named?] at hc
    | plain tag => simp [Constraint.admits, Version.named?] at hc
    | semver range => simp [Constraint.admits, Version.tag?, Version.named?] at hc⟩

end Version

namespace Universe

variable {u : Universe}

/-- Versions of one revision have the same imports. -/
theorem Carries.congr {p q : Project} {v w : Version} {package path : String} {r : Revision}
    (hroot : p.root = q.root) (hloc : p.location = q.location) (hv : v.revision? = some r)
    (hw : w.revision? = some r) (h : u.Carries p v package path) : u.Carries q w package path := by
  obtain ⟨tree, imports, ht, hi, hp⟩ := h
  exact ⟨tree, imports, packagesOf_congr hroot hloc hv hw ht, hi, hp⟩

end Universe

end Depsolve
