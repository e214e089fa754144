import Depsolve.Json.Reader
import Depsolve.Json.Shape
import Depsolve.Universe.Basic

/-!
# Universe files

A universe as a JSON text: `Universe.ofText` reads it. A state without a tag and a branch is a
commit; one without packages has a root package without imports.
-/

namespace Depsolve

/-- A published state as it is written. -/
structure SnapshotEntry where
  tag : Option String
  branch : Option String
  isDefault : Bool
  revision : String
  constraints : SortedMap String Declaration
  packages : Option (SortedMap String (SortedSet String))

/-- A universe as it is written. -/
structure UniverseFile where
  projects : SortedMap String (List SnapshotEntry)
  unreachable : SortedSet String

namespace UniverseFile

/-- Reads a declaration. -/
def declaration? (v : Json.Value) : Option Declaration := do
  match ← Json.record? ["version", "branch", "revision", "source"] 0 v with
  | [version, branch, revision, source] =>
    let text := Json.optional? Json.text?
    return ⟨← text version, ← text branch, ← text revision, ← text source⟩
  | _ => none

/-- Reads the entry of a published state. -/
def snapshot? (v : Json.Value) : Option SnapshotEntry := do
  match ← Json.record? ["tag", "branch", "default", "revision", "constraints", "packages"] 6 v with
  | [tag, branch, isDefault, revision, constraints, packages] =>
    return {
      tag := ← Json.optional? Json.text? tag
      branch := ← Json.optional? Json.text? branch
      isDefault := ← Json.default? Json.bool? false isDefault
      revision := ← Json.text? (← revision)
      constraints := ← Json.default? (Json.map? declaration?) .empty constraints
      packages := ← Json.optional? (Json.map? Json.set?) packages }
  | _ => none

/-- Reads the entry of a project. -/
def project? (v : Json.Value) : Option (List SnapshotEntry) := do
  match ← Json.record? ["versions"] 0 v with
  | [versions] => Json.default? (Json.list? snapshot?) [] versions
  | _ => none

/-- Reads the shape of a universe. -/
def ofValue? (v : Json.Value) : Option UniverseFile := do
  match ← Json.record? ["projects", "unreachable"] 0 v with
  | [projects, unreachable] =>
    return ⟨← Json.default? (Json.map? project?) .empty projects,
      ← Json.default? Json.set? .empty unreachable⟩
  | _ => none

end UniverseFile

namespace SnapshotEntry

/-- The label that an entry gives; `root` names the project in faults. -/
def snapshotLabel (root : String) (e : SnapshotEntry) : Except Fault Label :=
  match e.tag, e.branch with
  | some tag, none => .ok (.tag tag)
  | none, some branch => .ok (.branch branch e.isDefault)
  | none, none => .ok .commit
  | some _, some _ =>
    .error (.manifest root ("version at " ++ e.revision ++ " has both a tag and a branch"))

/-- The published state that an entry gives; `root` names the project in faults. -/
def snapshot (root : String) (e : SnapshotEntry) : Except Fault Snapshot := do
  let label ← e.snapshotLabel root
  let constraints ← Manifest.termsOf e.constraints
  let bare := Snapshot.bare label ⟨e.revision⟩
  return { bare with constraints, packages := e.packages.getD bare.packages }

end SnapshotEntry

namespace Universe

/-- The universe of a file. -/
def ofFile (file : UniverseFile) : Except Fault Universe := do
  let projects ← file.projects.entries.mapM fun (root, entries) => do
    return (root, ← entries.mapM (SnapshotEntry.snapshot root))
  return ⟨.ofList projects, file.unreachable⟩

/-- Reads a universe from a JSON value. -/
def ofJson (v : Json.Value) : Except Fault Universe :=
  match UniverseFile.ofValue? v with
  | some file => ofFile file
  | none => .error .json

/-- Reads a universe from a JSON text. -/
def ofText (text : String) : Except Fault Universe :=
  match Json.read text with
  | some v => ofJson v
  | none => .error .json

end Universe

end Depsolve
