import Depsolve.Source.Cache
import Depsolve.Source.Provider

/-!
# Sessions

A session asks a provider on behalf of one run. Every query first sees whether the caller has
cancelled, then asks the cache, and the provider only for what the cache does not know. The provider
is released once, by `Session.release` or by `Session.close`, whichever comes first.
-/

namespace Depsolve

/-- A provider in use by one run. -/
structure Session where
  cache : Cache
  provider : Provider
  isReleased : Bool

namespace Session

/-- A new session with a provider. -/
def start (p : Provider) : Session := ⟨.empty, p, false⟩

/-- Fails once the caller has cancelled the run. -/
def checkpoint : Ask Session Unit := do
  if (← get).provider.isCancelled then
    throw .cancelled

/-- A query to the cache and the provider behind it. -/
def ask {α : Type} (query : StateM (Cache × Provider) (Except SourceFault α)) :
    Ask Session α := do
  checkpoint
  let s ← get
  let (answer, cache, provider) := query.run (s.cache, s.provider)
  set { s with cache, provider }
  match answer with
  | .ok a => return a
  | .error e => throw (.lookup e)

/-- A query to the provider behind the cache. -/
def fetch {α : Type} (query : StateM Provider (Except SourceFault α)) :
    StateM (Cache × Provider) (Except SourceFault α) := do
  let (cache, provider) ← get
  let (answer, provider) := query.run provider
  set (cache, provider)
  return answer

/-- The named versions of a project. -/
def versions (p : Project) : Ask Session (List Bound) :=
  ask (Cache.remember Cache.versionsTable p (fetch (Provider.versions p)))

/-- Whether a revision of a project is still there. -/
def hasRevision (p : Project) (r : Revision) : Ask Session Bool :=
  ask (Cache.remember Cache.revisionsTable (p, r) (fetch (Provider.hasRevision p r)))

/-- The root of the project that owns an import path. -/
def rootOf (path : String) : Ask Session String :=
  ask (Cache.remember Cache.rootsTable path (fetch (Provider.rootOf path)))

/-- The manifest of a version of a project. -/
def manifestOf (p : Project) (v : Version) : Ask Session Manifest :=
  ask (Cache.remember Cache.manifestsTable (Cache.versionKey p v) (fetch (Provider.manifestOf p v)))

/-- The packages of a version of a project. -/
def packagesOf (p : Project) (v : Version) : Ask Session PackageTree :=
  ask (Cache.remember Cache.packagesTable (Cache.versionKey p v) (fetch (Provider.packagesOf p v)))

/-- Asks for the versions of those projects whose versions are not known, if there are at least two.
The answers, and the faults, wait in the cache. -/
def prefetch (projects : List Project) : StateM Session Unit := do
  let s ← get
  let pending := projects.filter fun p => ! s.cache.hasVersions p
  if 2 ≤ pending.length ∧ ! s.provider.isCancelled then
    pending.forM fun p => discard (versions p).run

/-- Releases the provider, unless that was done before. -/
def release (s : Session) : Session :=
  if s.isReleased then s else { s with provider := s.provider.release, isReleased := true }

/-- Ends the session. -/
def close (s : Session) : Provider :=
  s.release.provider

/-- Cancels the run. -/
def cancel (s : Session) : Session :=
  { s with provider := s.provider.cancel }

/-- The session as a source. -/
def source : Source Session where
  checkpoint := checkpoint
  versions := versions
  hasRevision := hasRevision
  rootOf := rootOf
  manifestOf := manifestOf
  packagesOf := packagesOf
  prefetch := prefetch

end Session

end Depsolve
