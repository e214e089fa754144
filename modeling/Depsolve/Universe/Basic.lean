import Depsolve.Manifest.Basic
import Depsolve.PackageTree

/-!
# Universes of projects

A universe holds all projects that can be depended on: the published states of each, and the places
that cannot be reached. Its answers are pure functions: the versions of a project, the presence of a
revision, the owner of an import path, and the manifest and the packages of a version.
-/

namespace Depsolve

/-- How a published state of a project is labelled. -/
inductive Label
  | tag (text : String)
  /-- As the head of a branch, which may be the default branch. -/
  | branch (name : String) (isDefault : Bool)
  | commit
deriving DecidableEq

/-- The name that a label gives. -/
def Label.named? : Label → Option Named
  | .tag text => some (.ofTag text)
  | .branch name isDefault => some (.branch name isDefault)
  | .commit => none

/-- A published state of a project. -/
structure Snapshot where
  label : Label
  named : Option Named := label.named?
  named_eq : named = label.named? := by rfl
  revision : Revision
  constraints : SortedMap String Terms
  /-- Its packages, relative to the root, and what each imports. -/
  packages : SortedMap String (SortedSet String)

namespace Snapshot

/-- A state that declares nothing and has only a root package without imports. -/
def bare (label : Label) (revision : Revision) : Snapshot :=
  { label, revision, constraints := .empty, packages := SortedMap.empty.insert "." .empty }

/-- The state with more imports in one of its packages. -/
def withPackage (s : Snapshot) (relative : String) (imports : SortedSet String) : Snapshot :=
  { s with
    packages := s.packages.insert relative
      (((s.packages.get? relative).getD .empty).union imports) }

/-- The state with terms for another project. -/
def withTerms (s : Snapshot) (root : String) (terms : Terms) : Snapshot :=
  { s with constraints := s.constraints.insert root terms }

/-- The name with the revision, if the state has a name. -/
def bound? (s : Snapshot) : Option Bound :=
  s.named.map fun n => ⟨n, s.revision⟩

/-- Whether a version means this state; a state without a name is meant by its revision only. -/
def answers (s : Snapshot) (requested : Version) : Bool :=
  match s.bound? with
  | some b => (Version.bound b).agrees requested
  | none => requested.revision? = some s.revision

/-- The manifest of the state. -/
def manifest (s : Snapshot) : Manifest :=
  { Manifest.empty with constraints := s.constraints }

/-- The packages of the state, found under some root. -/
def tree (root : String) (s : Snapshot) : PackageTree :=
  s.packages.entries.foldl
    (fun tree (relative, imports) => tree.insert (ImportPath.join root relative) imports) .empty

end Snapshot

/-- All projects that can be depended on. -/
structure Universe where
  /-- The published states of each project, in the order in which they are listed. -/
  projects : SortedMap String (List Snapshot)
  unreachable : SortedSet String

namespace Universe

/-- The universe without projects. -/
def empty : Universe := ⟨.empty, .empty⟩

/-- The published states that a project is served from: those of its source if that is a project of
the universe, else those of its root. -/
def snapshots (u : Universe) (p : Project) : Except SourceFault (List Snapshot) :=
  if u.unreachable.contains p.location || u.unreachable.contains p.root then
    .error (.backend p.root "repository is unreachable")
  else
    match u.projects.get? p.location <|> u.projects.get? p.root with
    | some snapshots => .ok snapshots
    | none => .error (.projectNotFound p.root)

/-- The first published state that a version means. -/
def snapshot (u : Universe) (p : Project) (v : Version) : Except SourceFault Snapshot := do
  match (← u.snapshots p).find? (·.answers v) with
  | some s => return s
  | none => throw (.versionNotFound p.root v.toText)

/-- The named versions of a project, in the order in which they are listed. -/
def versions (u : Universe) (p : Project) : Except SourceFault (List Bound) :=
  (u.snapshots p).map (·.filterMap Snapshot.bound?)

/-- Whether some published state of a project has a revision. -/
def hasRevision (u : Universe) (p : Project) (r : Revision) : Except SourceFault Bool :=
  (u.snapshots p).map (·.any fun s => s.revision = r)

/-- The longer of two texts, the second if they are of the same length. -/
def longer (best : Option String) (text : String) : Option String :=
  match best with
  | some b => if b.utf8ByteSize ≤ text.utf8ByteSize then some text else some b
  | none => some text

/-- The longest of some texts, the last of several. -/
def longest? (texts : List String) : Option String :=
  texts.foldl longer none

/-- The roots that an import path lies at or below. -/
def owners (u : Universe) (path : String) : List String :=
  (u.projects.keys ++ u.unreachable.toList).filter fun root => ImportPath.covers root path

/-- The longest root that an import path lies at or below. -/
def rootOf (u : Universe) (path : String) : Except SourceFault String :=
  match longest? (u.owners path) with
  | some root => .ok root
  | none => .error (.rootUnknown path "no known project contains this path")

/-- The manifest of a version. -/
def manifestOf (u : Universe) (p : Project) (v : Version) : Except SourceFault Manifest :=
  (u.snapshot p v).map Snapshot.manifest

/-- The packages of a version, found under the project's root. -/
def packagesOf (u : Universe) (p : Project) (v : Version) : Except SourceFault PackageTree :=
  (u.snapshot p v).map (Snapshot.tree p.root)

/-- The universe with a project; one of the same root is replaced. -/
def register (u : Universe) (root : String) (snapshots : List Snapshot) : Universe :=
  { u with projects := u.projects.insert root snapshots }

/-- The universe with one more place that cannot be reached. -/
def withUnreachable (u : Universe) (root : String) : Universe :=
  { u with unreachable := u.unreachable.insert root }

end Universe

end Depsolve
