import Depsolve.Lock.Basic
import Depsolve.Manifest.Basic
import Depsolve.PackageTree

/-!
# Problems

A problem is a project whose dependencies are to be solved: its root, its manifest, its packages
and what they import, and the lock of an earlier solution. `Problem.imports` are the imports
that have to be provided by other projects, and `Problem.termsFor` are the terms on which a
project is required.
-/

namespace Depsolve

/-- A project whose dependencies are to be solved. -/
structure Problem where
  root : String
  /-- Its manifest, which also has the overrides and the ignore rules for the whole solution. -/
  manifest : Manifest
  /-- Its packages, by full import path, and what each imports. -/
  packages : PackageTree
  /-- An earlier solution, whose versions are preferred. -/
  lock : Option Lock

/-- How a problem is to be solved. -/
structure SolveOptions where
  /-- The projects whose locked versions are not preferred. -/
  toChange : SortedSet String
  /-- Whether no locked version is preferred. -/
  changeAll : Bool
  /-- Whether the versions of all projects that are waiting are asked for ahead of time. -/
  prefetch : Bool
  /-- Whether the solution tells how it was found. -/
  trace : Bool

/-- Where an import leads to, seen from a package of a project. -/
inductive Place
  /-- To the standard library, to an ignored package, or into the project being solved. -/
  | skipped
  | inside
  | outside
deriving DecidableEq

namespace Problem

/-- The problem of a project that imports nothing. -/
def new (root : String) (manifest : Manifest) : Problem :=
  ⟨root, manifest, PackageTree.empty.insert root .empty, none⟩

/-- The problem with more imports in the root package. -/
def withImports (p : Problem) (imports : SortedSet String) : Problem :=
  { p with packages := p.packages.insert p.root imports }

/-- The problem with more imports in a package that is named relative to the root. -/
def withPackage (p : Problem) (relative : String) (imports : SortedSet String) : Problem :=
  { p with packages := p.packages.insert (ImportPath.join p.root relative) imports }

/-- Whether an import needs no other project. -/
def skips (p : Problem) (path : String) : Bool :=
  ImportPath.isStandard path || p.manifest.isIgnored path || ImportPath.covers p.root path

/-- Where an import leads to, seen from a package of the project with the given root. -/
def place (p : Problem) (root path : String) : Place :=
  if p.skips path then .skipped else if ImportPath.covers root path then .inside else .outside

/-- The imports of one package that need another project; an ignored package has none. -/
def importsOf (p : Problem) (package : String) (imports : SortedSet String) : SortedSet String :=
  if p.manifest.isIgnored package then .empty else imports.filter fun path => ! p.skips path

/-- The imports that have to be provided by other projects. -/
def imports (p : Problem) : SortedSet String :=
  p.packages.packages.entries.foldl
    (fun found (package, imports) => found.union (p.importsOf package imports)) .empty

/-- The terms on which a project is required by one with the given manifest: those of an override of
the problem, else those that the manifest declares, else any version from the project's own root. -/
def termsFor (p : Problem) (manifest : Manifest) (target : String) : Terms :=
  ((p.manifest.overrides.get? target) <|> (manifest.constraints.get? target)).getD ⟨none, .any⟩

end Problem

end Depsolve
