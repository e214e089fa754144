import Depsolve.Source.Session

/-!
# The kinds of queries

Every query goes through `Cache.remember`, with a table, keys and answers that depend on the kind of
the query. `QueryKind.Key`, `QueryKind.Answer` and `QueryKind.table` name them, and so what holds of
all five kinds is said once. The lemmas here are what a theory of caches needs to know of the
tables: they do not overlap, and storing an answer adds one entry to one of them.
-/

namespace Depsolve

namespace QueryKind

/-- What a query of a kind is about. -/
def Key : QueryKind → Type
  | .versions => Project
  | .revision => Project × Revision
  | .root => String
  | .manifest => Project × Version
  | .packages => Project × Version

/-- What a query of a kind is answered with. -/
def Answer : QueryKind → Type
  | .versions => List Bound
  | .revision => Bool
  | .root => String
  | .manifest => Manifest
  | .packages => PackageTree

instance decidableEqKey : (kind : QueryKind) → DecidableEq kind.Key
  | .versions => inferInstanceAs (DecidableEq Project)
  | .revision => inferInstanceAs (DecidableEq (Project × Revision))
  | .root => inferInstanceAs (DecidableEq String)
  | .manifest => inferInstanceAs (DecidableEq (Project × Version))
  | .packages => inferInstanceAs (DecidableEq (Project × Version))

/-- The table that remembers the answers to a kind of query. -/
def table : (kind : QueryKind) → CacheTable kind.Key kind.Answer
  | .versions => Cache.versionsTable
  | .revision => Cache.revisionsTable
  | .root => Cache.rootsTable
  | .manifest => Cache.manifestsTable
  | .packages => Cache.packagesTable

/-- The key under which the answer to a query is remembered. -/
def entry : (kind : QueryKind) → kind.Key → kind.Key
  | .versions, p => p
  | .revision, k => k
  | .root, path => path
  | .manifest, (p, v) => Cache.versionKey p v
  | .packages, (p, v) => Cache.versionKey p v

end QueryKind

namespace Cache

variable {kind : QueryKind} {key : kind.Key} {answer : Except SourceFault kind.Answer}

@[simp] theorem get_empty (kind : QueryKind) : kind.table.get empty = [] := by
  cases kind <;> rfl

@[simp] theorem get_clear (kind : QueryKind) (c : Cache) : kind.table.get c.clear = [] := by
  cases kind <;> rfl

@[simp] theorem get_hit (kind : QueryKind) (c : Cache) (n : Nat) :
    kind.table.get { c with hits := n } = kind.table.get c := by
  cases kind <;> rfl

theorem get_store (c : Cache) :
    kind.table.get (store kind.table key answer c) = (key, answer) :: kind.table.get c := by
  cases kind <;> rfl

theorem get_store_of_ne {other : QueryKind} (h : other ≠ kind) (c : Cache) :
    other.table.get (store kind.table key answer c) = other.table.get c := by
  cases kind <;> cases other <;> first | rfl | exact absurd rfl h

theorem size_eq (c : Cache) : c.size =
    (QueryKind.versions.table.get c).length + (QueryKind.revision.table.get c).length +
      (QueryKind.root.table.get c).length + (QueryKind.manifest.table.get c).length +
        (QueryKind.packages.table.get c).length :=
  rfl

@[simp] theorem size_store (c : Cache) : (store kind.table key answer c).size = c.size + 1 := by
  cases kind <;> simp [size_eq, get_store, get_store_of_ne] <;> omega

@[simp] theorem hits_store (c : Cache) : (store kind.table key answer c).hits = c.hits := by
  cases kind <;> rfl

@[simp] theorem misses_store (c : Cache) :
    (store kind.table key answer c).misses = c.misses + 1 := by
  cases kind <;> rfl

section Remember

variable {κ α ω : Type} [DecidableEq κ] {table : CacheTable κ α} {key : κ} {c : Cache}

/-- A query whose answer is remembered fetches nothing. -/
theorem remember_run_of_some {a : Except SourceFault α} (h : (table.get c).lookup key = some a)
    (fetch : StateM (Cache × ω) (Except SourceFault α)) (w : ω) :
    (remember table key fetch).run (c, w) = (a, { c with hits := c.hits + 1 }, w) := by
  simp only [remember, StateT.run_bind, StateT.run_get, pure_bind, h]
  rfl

/-- A query whose answer is not remembered gets what is fetched, and remembers it. -/
theorem remember_run_of_none (h : (table.get c).lookup key = none)
    (fetch : StateM (Cache × ω) (Except SourceFault α)) (w : ω) :
    (remember table key fetch).run (c, w) =
      ((fetch.run (c, w)).1, store table key (fetch.run (c, w)).1 (fetch.run (c, w)).2.1,
        (fetch.run (c, w)).2.2) := by
  simp only [remember, StateT.run_bind, StateT.run_get, pure_bind, h]
  rfl

end Remember

end Cache

end Depsolve
