import Depsolve.Lock.Basic
import Depsolve.Manifest.File

/-!
# Lock files

A lock as the text of its file: `Lock.ofText` reads it and `Lock.toText` writes it.
-/

namespace Depsolve

/-- The name of lock files. -/
def lockName : String := "tether.lock"

/-- An entry of a lock file as it is written. -/
structure LockEntry where
  name : String
  /-- The source; the empty text stands for none. -/
  source : Option String
  version : Option String
  branch : Option String
  revision : Option String
  /-- The packages in order. -/
  packages : List String

/-- A lock file as it is written. -/
structure LockFile where
  /-- The entries in order. -/
  projects : List LockEntry
  solveMeta : Option SolveMeta

namespace LockFile

/-- Reads the shape of an entry. -/
def entry? (v : Toml.Value) : Option LockEntry := do
  match ← Toml.record? ["name", "source", "version", "branch", "revision", "packages"] v with
  | [name, source, version, branch, revision, packages] =>
    let text := Toml.optional? Toml.text?
    return {
      name := ← Toml.text? (← name)
      source := ← text source
      version := ← text version
      branch := ← text branch
      revision := ← text revision
      packages := ← Toml.default? (Toml.list? Toml.text?) [] packages }
  | _ => none

/-- Reads the shape of the solver's metadata; the version is a number of 32 bits. -/
def solveMeta? (v : Toml.Value) : Option SolveMeta := do
  match ← Toml.record? ["inputs-digest", "solver-name", "solver-version"] v with
  | [digest, name, version] =>
    return ⟨← Toml.text? (← digest), ← Toml.text? (← name),
      ← Toml.natBelow? 4294967296 (← version)⟩
  | _ => none

/-- Reads the shape of a lock file. -/
def ofDocument? (entries : List (String × Toml.Value)) : Option LockFile := do
  match ← Toml.record? ["projects", "solve-meta"] (.table entries) with
  | [projects, solveMeta] =>
    return ⟨← Toml.default? (Toml.list? entry?) [] projects,
      ← Toml.optional? solveMeta? solveMeta⟩
  | _ => none

/-- The document of an entry. -/
def entryDocument (e : LockEntry) : List (String × Toml.Value) :=
  let entry (key : String) (value : Option String) : List (String × Toml.Value) :=
    (value.map fun s => (key, .string s)).toList
  [("name", .string e.name)] ++ entry "source" e.source ++ entry "version" e.version ++
    entry "branch" e.branch ++ entry "revision" e.revision ++
    [("packages", .array (e.packages.map .string))]

/-- The document of the solver's metadata. -/
def metaDocument (m : SolveMeta) : List (String × Toml.Value) :=
  [("inputs-digest", .string m.inputsDigest), ("solver-name", .string m.solverName),
    ("solver-version", .integer m.solverVersion)]

/-- The document of a lock file. -/
def document (file : LockFile) : List (String × Toml.Value) :=
  [("projects", .array (file.projects.map fun e => .table (entryDocument e)))] ++
    (file.solveMeta.map fun m => ("solve-meta", .table (metaDocument m))).toList

end LockFile

namespace LockEntry

/-- The name of the version that an entry gives, if it gives one. -/
def named (e : LockEntry) : Except Fault (Option Named) :=
  match e.version, e.branch with
  | some _, some _ => .error (.lock e.name "only one of version or branch may be set")
  | some tag, none => .ok (some (.ofTag tag))
  | none, some branch => .ok (some (.branch branch false))
  | none, none => .ok none

/-- The version that an entry gives. -/
def lockedVersion (e : LockEntry) : Except Fault Version := do
  match ← e.named, e.revision.map Text.trimmed with
  | some n, some r => return .bound ⟨n, ⟨r⟩⟩
  | some n, none => return .named n
  | none, some r => return .revision ⟨r⟩
  | none, none => throw (.lock e.name "one of version, branch or revision is required")

/-- The locked project that an entry gives. -/
def locked (e : LockEntry) : Except Fault LockedProject := do
  if ! ImportPath.isValid e.name then
    throw (.lock e.name "not a valid project root")
  if e.revision.any Text.isBlankText then
    throw (.lock e.name "revision must not be empty")
  let version ← e.lockedVersion
  return {
    project := ⟨e.name, source? e.source⟩
    version
    packages := .ofList e.packages }

/-- The entry of a locked project. -/
def ofLocked (p : LockedProject) : LockEntry :=
  let (version, branch) :=
    match p.version.named? with
    | some (.branch name _) => (none, some name)
    | some other => (some other.name, none)
    | none => (none, none)
  { name := p.project.root
    source := p.project.source
    version
    branch
    revision := p.version.revision?.map Revision.text
    packages := p.packages.toList }

end LockEntry

namespace Lock

/-- The lock of a file. -/
def ofFile (file : LockFile) : Except Fault Lock := do
  let projects ← file.projects.mapM LockEntry.locked
  let lock ← ofProjects projects
  return { lock with solveMeta := file.solveMeta }

/-- The file of a lock, sorted by root. -/
def toFile (lock : Lock) : LockFile :=
  ⟨(sortByRoot lock.projects).map LockEntry.ofLocked, lock.solveMeta⟩

/-- Reads the text of a lock file. -/
def ofText (text : String) : Except Fault Lock :=
  match Toml.read text with
  | none => .error (.toml lockName tomlSyntax)
  | some document =>
    match LockFile.ofDocument? document with
    | none => .error (.toml lockName tomlShape)
    | some file => ofFile file

/-- The text of a lock file; a lock with two entries of one root has none. -/
def toText (lock : Lock) : Except Fault String := do
  lock.validate
  return Toml.write lock.toFile.document

end Lock

end Depsolve
