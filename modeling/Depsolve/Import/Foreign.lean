import Depsolve.Fault
import Depsolve.Json.Reader
import Depsolve.Json.Shape

/-!
# Foreign configurations

What another tool has recorded about the dependencies of a project: packages to ignore, and packages
that are depended on, each with what is known about the version wanted. A foreign configuration is
exchanged as a JSON text.
-/

namespace Depsolve

/-- A dependency as another tool records it. -/
structure ForeignPackage where
  /-- The import path; it may lie below the root of the project. -/
  name : String
  source : Option String
  /-- A version, a range or a branch. -/
  hint : Option String
  revision : Option String
deriving DecidableEq

/-- The dependencies as another tool records them. -/
structure ForeignConfig where
  ignored : List String
  packages : List ForeignPackage
deriving DecidableEq

/-- Reads an entry for a package. -/
def ForeignPackage.ofValue? (v : Json.Value) : Option ForeignPackage := do
  match ← Json.record? ["name", "source", "constraint_hint", "revision"] 1 v with
  | [name, source, hint, revision] =>
    let text := Json.optional? Json.text?
    return ⟨← Json.text? (← name), ← text source, ← text hint, ← text revision⟩
  | _ => none

/-- The JSON value of an entry; what is not known has no member. -/
def ForeignPackage.toValue (p : ForeignPackage) : Json.Value :=
  let member (key : String) (value : Option String) : List (String × Json.Value) :=
    (value.map fun s => (key, .string s)).toList
  .object ([("name", .string p.name)] ++ member "source" p.source ++
    member "constraint_hint" p.hint ++ member "revision" p.revision)

namespace ForeignConfig

/-- Reads the shape of a foreign configuration. -/
def ofValue? (v : Json.Value) : Option ForeignConfig := do
  match ← Json.record? ["ignored", "packages"] 0 v with
  | [ignored, packages] =>
    return ⟨← Json.default? (Json.list? Json.text?) [] ignored,
      ← Json.default? (Json.list? ForeignPackage.ofValue?) [] packages⟩
  | _ => none

/-- The JSON value of a foreign configuration. -/
def toValue (c : ForeignConfig) : Json.Value :=
  .object [("ignored", .array (c.ignored.map .string)),
    ("packages", .array (c.packages.map ForeignPackage.toValue))]

/-- Reads a foreign configuration from a JSON text. -/
def ofText (text : String) : Except Fault ForeignConfig :=
  match (Json.read text).bind ofValue? with
  | some c => .ok c
  | none => .error .json

end ForeignConfig

end Depsolve
