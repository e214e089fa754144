import Depsolve.Semver.Reader

/-!
# Versions of a project

A version is a bare revision, a named version (a branch, a plain tag or a semver tag), or a named
version bound to the revision it pointed at when it was looked up.

Two relations tell versions apart. `Version.same` is equality up to the flag of a branch;
`Version.agrees` asks whether two versions mean the same thing, however they are named.
-/

namespace Depsolve

/-- The hash of one state of a repository. -/
structure Revision where
  text : String
deriving DecidableEq, Inhabited

/-- A tag that reads as a semantic version. -/
structure Tag where
  /-- The tag without white space around it. -/
  text : String
  version : Semver
  isTrimmed : Text.trimmed text = text
  reads : Semver.readLenient text = .ok version
deriving DecidableEq

namespace Tag

/-- Reads a tag: white space around it is dropped, and missing numbers are zero. -/
def read (text : String) : Except Semver.ReadError Tag :=
  match h : Semver.readLenient text with
  | .error e => .error e
  | .ok version =>
    .ok {
      text := Text.trimmed text
      version := version
      isTrimmed := Text.trimmed_trimmed text
      reads := by
        rw [← h]
        simp [Semver.readLenient, Text.trimmed, Text.trim_trim] }

/-- A tag whose version is not a release. -/
def isPrerelease (t : Tag) : Bool :=
  ! t.version.pre.isEmpty

/-- The precedence of tags is that of their versions; spelling and build identifiers do not
count. -/
def precedence (a b : Tag) : Ordering :=
  a.version.precedence b.version

/-- By precedence, then by build identifier, then by spelling. -/
def compare (a b : Tag) : Ordering :=
  (a.precedence b).then <|
    (Semver.compareBuild a.version.build b.version.build).then (Ord.compare a.text b.text)

end Tag

/-- A version given by a name. -/
inductive Named
  /-- A branch, and whether it is the default branch of its repository. -/
  | branch (name : String) (isDefault : Bool)
  | plain (tag : String)
  | semver (tag : Tag)
deriving DecidableEq

/-- The kinds of versions. -/
inductive Kind
  | revision
  | plain
  | branch
  | semver
deriving DecidableEq

namespace Kind

/-- The kinds in ascending order. -/
def rank : Kind → Nat
  | .revision => 0
  | .plain => 1
  | .branch => 2
  | .semver => 3

/-- The name of a kind in messages. -/
def label : Kind → String
  | .revision => "revision"
  | .plain => "version"
  | .branch => "branch"
  | .semver => "semver"

end Kind

namespace Named

/-- A tag: a semver tag if it reads as one, else a plain one. -/
def ofTag (text : String) : Named :=
  match Tag.read text with
  | .ok tag => .semver tag
  | .error _ => .plain text

/-- The name as the repository writes it. -/
def name : Named → String
  | .branch name _ => name
  | .plain tag => tag
  | .semver tag => tag.text

/-- The kind of a named version. -/
def kind : Named → Kind
  | .branch .. => .branch
  | .plain _ => .plain
  | .semver _ => .semver

/-- The semver tag, if it is one. -/
def tag? : Named → Option Tag
  | .semver tag => some tag
  | _ => none

/-- The same name, without the flag of a branch. -/
def canonical : Named → Named
  | .branch name _ => .branch name false
  | other => other

/-- The same kind and the same value; semver tags go by precedence, so `v1.0.0` agrees with
`1.0.0`. -/
def agrees : Named → Named → Bool
  | .branch a _, .branch b _ => a = b
  | .plain a, .plain b => a = b
  | .semver a, .semver b => a.precedence b = .eq
  | _, _ => false

/-- Within a kind by value, else by kind. -/
def compare : Named → Named → Ordering
  | .branch a _, .branch b _ => Ord.compare a b
  | .plain a, .plain b => Ord.compare a b
  | .semver a, .semver b => a.compare b
  | a, b => Ord.compare a.kind.rank b.kind.rank

end Named

/-- A named version and the revision it pointed at. -/
structure Bound where
  named : Named
  revision : Revision
deriving DecidableEq

/-- The same version, without the flag of a branch. -/
def Bound.canonical (b : Bound) : Bound :=
  ⟨b.named.canonical, b.revision⟩

/-- A version of a project. -/
inductive Version
  | revision (revision : Revision)
  | named (named : Named)
  | bound (bound : Bound)
deriving DecidableEq

namespace Version

/-- The name, if the version has one. -/
def named? : Version → Option Named
  | .revision _ => none
  | .named n => some n
  | .bound b => some b.named

/-- The revision the version is known to point at, if any. -/
def revision? : Version → Option Revision
  | .revision r => some r
  | .named _ => none
  | .bound b => some b.revision

/-- The semver tag behind the version, if any. -/
def tag? (v : Version) : Option Tag :=
  v.named?.bind Named.tag?

/-- The kind of a version is that of its name, or `revision`. -/
def kind (v : Version) : Kind :=
  match v.named? with
  | some n => n.kind
  | none => .revision

/-- Whether the version has both a name and a revision. -/
def isBound : Version → Bool
  | .bound _ => true
  | _ => false

/-- The text of a version: its name, or the hash of a bare revision. -/
def toText : Version → String
  | .revision r => r.text
  | .named n => n.name
  | .bound b => b.named.name

/-- The same version, without the flag of a branch. -/
def canonical : Version → Version
  | .revision r => .revision r
  | .named n => .named n.canonical
  | .bound b => .bound b.canonical

/-- Equality up to the flag of a branch. -/
def same (a b : Version) : Bool :=
  a.canonical = b.canonical

/-- The same version, however named: by revision if both have one, else by name. -/
def agrees : Version → Version → Bool
  | .revision a, .revision b => a = b
  | .revision a, .bound b => a = b.revision
  | .bound a, .revision b => a.revision = b
  | .bound a, .bound b => a.revision = b.revision
  | .named a, .named b => a.agrees b
  | .named a, .bound b => a.agrees b.named
  | .bound a, .named b => b.agrees a.named
  | .revision _, .named _ => false
  | .named _, .revision _ => false

/-- Revisions by hash; a missing one comes first. -/
def compareRevision? : Option Revision → Option Revision → Ordering
  | none, none => .eq
  | none, some _ => .lt
  | some _, none => .gt
  | some a, some b => Ord.compare a.text b.text

/-- Names by their order; the order of kinds has already told a missing name from another. -/
def compareNamed? : Option Named → Option Named → Ordering
  | some a, some b => a.compare b
  | _, _ => .eq

/-- By kind, then by name, then the unbound before the bound, then by revision. -/
def compare (a b : Version) : Ordering :=
  (Ord.compare a.kind.rank b.kind.rank).then <|
    (compareNamed? a.named? b.named?).then <|
      (Ord.compare a.isBound.toNat b.isBound.toNat).then (compareRevision? a.revision? b.revision?)

end Version

end Depsolve
