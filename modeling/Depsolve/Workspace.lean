import Depsolve.Disk.Path
import Depsolve.Disk.Volume
import Depsolve.Lock.File

/-!
# Workspaces

A workspace is a directory with a manifest file, and perhaps a lock file. It is found from any path
at or below it. Files are replaced as a whole: the new text is written beside the file and then
moved to its place, so that a fault leaves the file as it was.
-/

namespace Depsolve

/-- A project as it lies in a directory. -/
structure Workspace where
  directory : String
  manifest : Manifest
  lock : Option Lock
deriving DecidableEq

/-- The fault of a file operation. -/
def fileFault (verb path : String) : Fault :=
  .io ("Failed to " ++ verb ++ " " ++ path)

/-- The fault as it is for a file: a fault of syntax or shape names the file by its path. -/
def Fault.inFile (path : String) : Fault → Fault
  | .toml _ problem => .toml path problem
  | e => e

namespace Volume

variable {σ : Type} (v : Volume σ)

/-- Whether there is something at a path. -/
def exists? (disk : σ) (path : String) : Except Fault Bool :=
  match v.isThere? disk path with
  | some found => .ok found
  | none => .error (fileFault "check" path)

/-- The text of the file at a path. -/
def text (disk : σ) (path : String) : Except Fault String :=
  match v.read? disk path with
  | some text => .ok text
  | none => .error (fileFault "read" path)

/-- Reads a manifest file. -/
def manifest (disk : σ) (path : String) : Except Fault Manifest := do
  let text ← v.text disk path
  (Manifest.ofText text).mapError (Fault.inFile path)

/-- Reads a lock file. -/
def lock (disk : σ) (path : String) : Except Fault Lock := do
  let text ← v.text disk path
  (Lock.ofText text).mapError (Fault.inFile path)

/-- The path at which a file is written before it is moved to its place. -/
def draft (path : String) : String :=
  path ++ ".tmp"

/-- Replaces the file at a path. If the new file cannot be moved to its place it is removed. -/
def replace (path content : String) (disk : σ) : Except Fault Unit × σ :=
  match v.write disk (draft path) content with
  | (false, disk) => (.error (fileFault "write" (draft path)), disk)
  | (true, disk) =>
    match v.rename disk (draft path) path with
    | (true, disk) => (.ok (), disk)
    | (false, disk) => (.error (fileFault "replace" path), v.remove disk (draft path))

/-- Writes the lock file of a directory. -/
def writeLock (directory : String) (lock : Lock) (disk : σ) : Except Fault Unit × σ :=
  match lock.toText with
  | .error e => (.error e, disk)
  | .ok text => v.replace (FilePath.join directory lockName) text disk

/-- Writes the manifest file of a directory. -/
def writeManifest (directory : String) (m : Manifest) (disk : σ) : Except Fault Unit × σ :=
  v.replace (FilePath.join directory manifestName) m.toText disk

/-- The first of some directories that has a manifest file. -/
def firstWithManifest? (disk : σ) : List String → Except Fault (Option String)
  | [] => .ok none
  | directory :: rest => do
    if ← v.exists? disk (FilePath.join directory manifestName) then return some directory
    else firstWithManifest? disk rest

/-- The nearest directory with a manifest file, at a path or above it. -/
def findRoot (start : String) (disk : σ) : Except Fault String := do
  match ← v.firstWithManifest? disk (FilePath.ancestors start) with
  | some directory => return directory
  | none =>
    throw (.manifest manifestName
      ("No " ++ manifestName ++ " found in " ++ start ++ " or parent directories"))

/-- The workspace that a path lies in. -/
def load (start : String) (disk : σ) : Except Fault Workspace := do
  let directory ← v.findRoot start disk
  let manifest ← v.manifest disk (FilePath.join directory manifestName)
  let path := FilePath.join directory lockName
  if ← v.exists? disk path then
    return ⟨directory, manifest, some (← v.lock disk path)⟩
  else
    return ⟨directory, manifest, none⟩

/-- Replaces the lock of a workspace, in its directory and in the workspace itself. -/
def relock (lock : Lock) (w : Workspace) (disk : σ) : Except Fault Unit × Workspace × σ :=
  match v.writeLock w.directory lock disk with
  | (.ok (), disk) => (.ok (), { w with lock := some lock }, disk)
  | (.error e, disk) => (.error e, w, disk)

end Volume

end Depsolve
