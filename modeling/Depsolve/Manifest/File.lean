import Depsolve.Manifest.Basic
import Depsolve.Toml.Reader
import Depsolve.Toml.Shape
import Depsolve.Toml.Writer

/-!
# Manifest files

A manifest as the text of its file: `Manifest.ofText` reads it and `Manifest.toText` writes it.
-/

namespace Depsolve

/-- The problem of a file that is no TOML. -/
def tomlSyntax : String := "TOML syntax error"

/-- The problem of a TOML file of the wrong shape. -/
def tomlShape : String := "TOML parsing error"

/-- The name of manifest files. -/
def manifestName : String := "tether.toml"

/-- A manifest file as it is written. -/
structure ManifestFile where
  /-- The ignore rules in order. -/
  ignored : List String
  constraints : SortedMap String Declaration
  overrides : SortedMap String Declaration

namespace ManifestFile

/-- Reads the declaration of one project. -/
def declaration? (v : Toml.Value) : Option Declaration := do
  match ← Toml.record? ["version", "branch", "revision", "source"] v with
  | [version, branch, revision, source] =>
    let text := Toml.optional? Toml.text?
    return ⟨← text version, ← text branch, ← text revision, ← text source⟩
  | _ => none

/-- Reads a table of declarations. -/
def declarations? (v : Toml.Value) : Option (SortedMap String Declaration) :=
  (Toml.table? declaration? v).map .ofList

/-- Reads the shape of a manifest file. -/
def ofDocument? (entries : List (String × Toml.Value)) : Option ManifestFile := do
  match ← Toml.record? ["ignored", "constraints", "overrides"] (.table entries) with
  | [ignored, constraints, overrides] =>
    return {
      ignored := ← Toml.default? (Toml.list? Toml.text?) [] ignored
      constraints := ← Toml.default? declarations? .empty constraints
      overrides := ← Toml.default? declarations? .empty overrides }
  | _ => none

/-- The entries of a declaration that are given. -/
def declarationEntries (d : Declaration) : List (String × Toml.Value) :=
  let entry (key : String) (value : Option String) : List (String × Toml.Value) :=
    (value.map fun s => (key, .string s)).toList
  entry "version" d.version ++ entry "branch" d.branch ++ entry "revision" d.revision ++
    entry "source" d.source

/-- A table of declarations under a key; nothing for an empty one. -/
def tableEntries (key : String) (table : SortedMap String Declaration) :
    List (String × Toml.Value) :=
  if table.isEmpty then []
  else [(key, .table (table.entries.map fun (root, d) => (root, .table (declarationEntries d))))]

/-- The document of a manifest file. -/
def document (file : ManifestFile) : List (String × Toml.Value) :=
  (if file.ignored.isEmpty then [] else [("ignored", .array (file.ignored.map .string))]) ++
    tableEntries "constraints" file.constraints ++ tableEntries "overrides" file.overrides

end ManifestFile

namespace Manifest

/-- Checks an ignore rule: an import path without `*`, with or without `/*` behind it. -/
def checkIgnored (rule : String) : Except Fault Unit :=
  let path := (subtree? rule).getD rule
  if ImportPath.isValid path && ! path.toList.contains '*' then .ok ()
  else .error (.manifest "ignored"
    ("'" ++ rule ++ "' is not a package path or a path ending in /*"))

/-- Checks the root of a declaration in a table. -/
def checkRoot (table root : String) : Except Fault Unit :=
  if ImportPath.isValid root then .ok ()
  else .error (.manifest (table ++ "." ++ root) "not a valid project root")

/-- The terms of a table of declarations, each looked at in the order of the roots. -/
def checkedTerms (table : String) (declarations : SortedMap String Declaration) :
    Except Fault (SortedMap String Terms) := do
  let entries ← declarations.entries.mapM fun (root, d) => do
    checkRoot table root
    return (root, ← d.terms root)
  return .ofList entries

/-- The manifest of a file; ignore rules are looked at first, then constraints, then overrides. -/
def ofFile (file : ManifestFile) : Except Fault Manifest := do
  file.ignored.forM checkIgnored
  let constraints ← checkedTerms "constraints" file.constraints
  let overrides ← checkedTerms "overrides" file.overrides
  return { constraints, overrides, ignored := .ofList file.ignored }

/-- The file of a manifest. -/
def toFile (m : Manifest) : ManifestFile :=
  { ignored := m.ignored.toList
    constraints := m.constraints.mapValues Terms.declaration
    overrides := m.overrides.mapValues Terms.declaration }

/-- Reads the text of a manifest file. -/
def ofText (text : String) : Except Fault Manifest :=
  match Toml.read text with
  | none => .error (.toml manifestName tomlSyntax)
  | some document =>
    match ManifestFile.ofDocument? document with
    | none => .error (.toml manifestName tomlShape)
    | some file => ofFile file

/-- The text of a manifest file. -/
def toText (m : Manifest) : String :=
  Toml.write m.toFile.document

end Manifest

end Depsolve
