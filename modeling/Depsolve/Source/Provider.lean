import Depsolve.Source.Basic

/-!
# Providers

A provider serves a universe, counts the queries it begins to answer, and knows whether the caller
has cancelled the run. A caller may also plan to cancel once a number of further queries have begun.
-/

namespace Depsolve

/-- The kinds of things that a provider counts. -/
inductive QueryKind
  | versions
  | revision
  | root
  | manifest
  | packages
deriving DecidableEq

/-- How often each query was begun, and how often the provider was released. -/
structure QueryCounts where
  versions : Nat
  revision : Nat
  root : Nat
  manifest : Nat
  packages : Nat
  release : Nat
deriving DecidableEq, Inhabited

namespace QueryCounts

/-- No query and no release. -/
def zero : QueryCounts := ⟨0, 0, 0, 0, 0, 0⟩

/-- The counts after one more query. -/
def bump (c : QueryCounts) : QueryKind → QueryCounts
  | .versions => { c with versions := c.versions + 1 }
  | .revision => { c with revision := c.revision + 1 }
  | .root => { c with root := c.root + 1 }
  | .manifest => { c with manifest := c.manifest + 1 }
  | .packages => { c with packages := c.packages + 1 }

end QueryCounts

/-- A universe that is being asked about. -/
structure Provider where
  world : Universe
  counts : QueryCounts
  isCancelled : Bool
  /-- How many more queries may begin before the caller cancels; none if there is no such plan. -/
  patience : Option Nat

namespace Provider

/-- A provider that was not asked anything. -/
def new (u : Universe) : Provider := ⟨u, .zero, false, none⟩

/-- The provider after one more query has begun. -/
def begin (kind : QueryKind) (p : Provider) : Provider :=
  let p := { p with counts := p.counts.bump kind }
  match p.patience with
  | none => p
  | some n => if n ≤ 1 then { p with isCancelled := true, patience := none }
    else { p with patience := some (n - 1) }

/-- Begins a query and answers it from the universe. -/
def ask {α : Type} (kind : QueryKind) (f : Universe → Except SourceFault α) :
    StateM Provider (Except SourceFault α) := do
  modify (begin kind)
  return f (← get).world

/-- The provider after the caller has cancelled. -/
def cancel (p : Provider) : Provider :=
  { p with isCancelled := true }

/-- The provider after a release. -/
def release (p : Provider) : Provider :=
  { p with counts := { p.counts with release := p.counts.release + 1 } }

/-- Asks for the versions of a project. -/
def versions (p : Project) : StateM Provider (Except SourceFault (List Bound)) :=
  ask .versions fun u => u.versions p

/-- Asks whether a revision is there. -/
def hasRevision (p : Project) (r : Revision) : StateM Provider (Except SourceFault Bool) :=
  ask .revision fun u => u.hasRevision p r

/-- Asks for the owner of an import path. -/
def rootOf (path : String) : StateM Provider (Except SourceFault String) :=
  ask .root fun u => u.rootOf path

/-- Asks for a manifest. -/
def manifestOf (p : Project) (v : Version) : StateM Provider (Except SourceFault Manifest) :=
  ask .manifest fun u => u.manifestOf p v

/-- Asks for packages. -/
def packagesOf (p : Project) (v : Version) : StateM Provider (Except SourceFault PackageTree) :=
  ask .packages fun u => u.packagesOf p v

/-- A query to the provider, refused once the caller has cancelled. -/
def guarded {α : Type} (query : StateM Provider (Except SourceFault α)) : Ask Provider α := do
  if (← get).isCancelled then
    throw .cancelled
  match ← query with
  | .ok a => return a
  | .error e => throw (.lookup e)

/-- The provider as a source that is asked directly each time. -/
def source : Source Provider where
  checkpoint := do
    if (← get).isCancelled then
      throw .cancelled
  versions p := guarded (versions p)
  hasRevision p r := guarded (hasRevision p r)
  rootOf path := guarded (rootOf path)
  manifestOf p v := guarded (manifestOf p v)
  packagesOf p v := guarded (packagesOf p v)
  prefetch _ := pure ()

end Provider

end Depsolve
