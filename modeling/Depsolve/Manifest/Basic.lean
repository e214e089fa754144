import Depsolve.Constraint.Basic
import Depsolve.Fault
import Depsolve.Project
import Depsolve.Sorted.Map

/-!
# Manifests

A manifest declares what a project asks of others: constraints, overrides, which count for the whole
solution when they stand in the root manifest, and rules for packages to ignore.
-/

namespace Depsolve

/-- What is declared for one project: where to fetch it and which versions are acceptable. -/
structure Terms where
  /-- Where to fetch the project from, if not from its root. -/
  source : Option String
  constraint : Constraint
deriving DecidableEq, Inhabited

/-- Terms as they are written: at most one of version, branch and revision. -/
structure Declaration where
  /-- A range or a tag. -/
  version : Option String
  branch : Option String
  revision : Option String
  /-- A source; the empty text stands for none. -/
  source : Option String
deriving DecidableEq, Inhabited

/-- Rules for packages to ignore, and the terms declared for each project root. -/
structure Manifest where
  /-- Constraints by project root. -/
  constraints : SortedMap String Terms
  /-- Constraints by project root that replace all others. -/
  overrides : SortedMap String Terms
  /-- Package paths to ignore; a path that ends in `/*` stands for all packages from there on. -/
  ignored : SortedSet String
deriving DecidableEq, Inhabited

/-- A source that is given; the empty text gives none. -/
def source? (source : Option String) : Option String :=
  source.filter (· ≠ "")

namespace Declaration

/-- The constraint that a declaration stands for; `field` names it in faults. -/
def constraint (field : String) (d : Declaration) : Except Fault Constraint :=
  match d.version, d.branch, d.revision with
  | none, none, none => .ok .any
  | some version, none, none => .ok (.ofVersionText version)
  | none, some branch, none => .ok (.branch branch)
  | none, none, some revision =>
    if Text.isBlankText revision then .error (.manifest field "revision must not be empty")
    else .ok (.revision ⟨Text.trimmed revision⟩)
  | _, _, _ => .error (.manifest field "only one of version, branch or revision may be set")

/-- The terms that a declaration stands for; `field` names it in faults. -/
def terms (field : String) (d : Declaration) : Except Fault Terms := do
  let constraint ← d.constraint field
  return { source := source? d.source, constraint }

end Declaration

/-- The declaration that stands for the terms. -/
def Terms.declaration (t : Terms) : Declaration :=
  match t.constraint with
  | .any => ⟨none, none, none, t.source⟩
  | .revision r => ⟨none, none, some r.text, t.source⟩
  | .branch name => ⟨none, some name, none, t.source⟩
  | .plain tag => ⟨some tag, none, none, t.source⟩
  | .semver range => ⟨some range.toText, none, none, t.source⟩

namespace Manifest

/-- The manifest that declares nothing. -/
def empty : Manifest := ⟨.empty, .empty, .empty⟩

/-- Whether the manifest declares nothing. -/
def isEmpty (m : Manifest) : Bool :=
  m.constraints.isEmpty && m.ignored.isEmpty && m.overrides.isEmpty

/-- The path before a final `/*`. -/
def subtree? (rule : String) : Option String :=
  match rule.toList.reverse with
  | '*' :: '/' :: rest => some (String.ofList rest.reverse)
  | _ => none

/-- Whether one rule ignores a package. -/
def ruleIgnores (rule path : String) : Bool :=
  match subtree? rule with
  | some root => ImportPath.covers root path
  | none => rule = path

/-- Whether some rule ignores a package. -/
def isIgnored (m : Manifest) (path : String) : Bool :=
  m.ignored.toList.any fun rule => ruleIgnores rule path

/-- The project of a root as the manifest sees it: the source of an override counts before that of a
constraint. -/
def projectOf (m : Manifest) (root : String) : Project :=
  let declared (terms : SortedMap String Terms) : Option String :=
    (terms.get? root).bind Terms.source
  ⟨root, declared m.overrides <|> declared m.constraints⟩

/-- The terms of a table of declarations, in the order of their roots. -/
def termsOf (declarations : SortedMap String Declaration) :
    Except Fault (SortedMap String Terms) := do
  let entries ← declarations.entries.mapM fun (root, d) => return (root, ← d.terms root)
  return .ofList entries

/-- The manifest of declarations and ignore rules; constraints are looked at before overrides. -/
def ofDeclarations (constraints overrides : SortedMap String Declaration)
    (ignored : SortedSet String) : Except Fault Manifest := do
  let constraints ← termsOf constraints
  let overrides ← termsOf overrides
  return { constraints, overrides, ignored }

end Manifest

end Depsolve
