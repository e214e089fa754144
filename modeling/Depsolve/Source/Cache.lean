import Depsolve.Source.Basic

/-!
# Caches

A cache remembers every answer to a query, a fault as well as a value, so that no query is fetched
twice. There is a table for each kind of query; `Cache.remember` looks a key up in a table, fetches
what is missing and counts hits and misses.
-/

namespace Depsolve

/-- Answers by key, the latest first. -/
abbrev Answers (κ α : Type) := List (κ × Except SourceFault α)

/-- The answers remembered, and how often they helped. -/
structure Cache where
  versions : Answers Project (List Bound)
  revisions : Answers (Project × Revision) Bool
  roots : Answers String String
  /-- Manifests; the flag of a branch does not count in a key. -/
  manifests : Answers (Project × Version) Manifest
  /-- Packages; the flag of a branch does not count in a key. -/
  packages : Answers (Project × Version) PackageTree
  /-- Queries that the cache could answer. -/
  hits : Nat
  /-- Queries that it had to fetch. -/
  misses : Nat

/-- One of the tables of a cache. -/
structure CacheTable (κ α : Type) where
  get : Cache → Answers κ α
  /-- The cache with another table in its place. -/
  set : Cache → Answers κ α → Cache

namespace Cache

/-- The cache without answers. -/
def empty : Cache := ⟨[], [], [], [], [], 0, 0⟩

/-- The cache without its answers; the counts stay. -/
def clear (c : Cache) : Cache :=
  { empty with hits := c.hits, misses := c.misses }

/-- The number of answers. -/
def size (c : Cache) : Nat :=
  c.versions.length + c.revisions.length + c.roots.length + c.manifests.length + c.packages.length

/-- Whether the versions of a project are remembered. -/
def hasVersions (c : Cache) (p : Project) : Bool :=
  (c.versions.lookup p).isSome

/-- The table of versions. -/
def versionsTable : CacheTable Project (List Bound) :=
  ⟨Cache.versions, fun c t => { c with versions := t }⟩

/-- The table of revisions. -/
def revisionsTable : CacheTable (Project × Revision) Bool :=
  ⟨Cache.revisions, fun c t => { c with revisions := t }⟩

/-- The table of owners. -/
def rootsTable : CacheTable String String :=
  ⟨Cache.roots, fun c t => { c with roots := t }⟩

/-- The table of manifests. -/
def manifestsTable : CacheTable (Project × Version) Manifest :=
  ⟨Cache.manifests, fun c t => { c with manifests := t }⟩

/-- The table of packages. -/
def packagesTable : CacheTable (Project × Version) PackageTree :=
  ⟨Cache.packages, fun c t => { c with packages := t }⟩

/-- The key of a version of a project. -/
def versionKey (p : Project) (v : Version) : Project × Version :=
  (p, v.canonical)

variable {κ α ω : Type} [DecidableEq κ]

/-- The cache after a fetch: the answer is remembered, and the fetch is counted. -/
def store (table : CacheTable κ α) (key : κ) (answer : Except SourceFault α) (c : Cache) : Cache :=
  let c := table.set c ((key, answer) :: table.get c)
  { c with misses := c.misses + 1 }

/-- Answers a query from a table, or fetches the answer and remembers it. The fetch may use the
cache too, and whatever else is in `ω`. -/
def remember (table : CacheTable κ α) (key : κ)
    (fetch : StateM (Cache × ω) (Except SourceFault α)) :
    StateM (Cache × ω) (Except SourceFault α) := do
  match (table.get (← get).1).lookup key with
  | some answer =>
    modify fun (c, w) => ({ c with hits := c.hits + 1 }, w)
    return answer
  | none =>
    let answer ← fetch
    modify fun (c, w) => (store table key answer c, w)
    return answer

end Cache

end Depsolve
