import Depsolve.Fault

/-!
# Constraints

A constraint is a predicate on versions: every version, one revision, one branch, one plain tag or a
range of semver tags. `Constraint.admits` is its meaning.
-/

namespace Depsolve

/-- What versions of a project are acceptable. -/
inductive Constraint
  | any
  /-- The versions known to point at a revision. -/
  | revision (revision : Revision)
  | branch (name : String)
  | plain (tag : String)
  | semver (range : Range)
deriving DecidableEq, Inhabited

namespace Constraint

/-- The constraint that a `version` value stands for: a range if it reads as one, else a plain
tag. -/
def ofVersionText (text : String) : Constraint :=
  match Range.read text with
  | .ok range => .semver range
  | .error _ => .plain (Text.trimmed text)

/-- The constraint of a range; a text that is none is a fault. -/
def ofRangeText (text : String) : Except Fault Constraint :=
  match Range.read text with
  | .ok range => .ok (.semver range)
  | .error e => .error (.constraint text e)

/-- The constraint of the versions compatible with a tag; a text that is no semver tag is a
fault. -/
def ofTagText (text : String) : Except Fault Constraint :=
  (readTag text).map fun tag => .semver (.caret tag)

/-- The constraint that asks for a name, with compatible versions for a semver tag. -/
def ofNamed : Named → Constraint
  | .semver tag => .semver (.caret tag)
  | .branch name _ => .branch name
  | .plain tag => .plain tag

/-- The constraint that asks for a version's name; for a bare revision, its hash. -/
def ofVersion : Version → Constraint
  | .revision r => .revision r
  | .named n => ofNamed n
  | .bound b => ofNamed b.named

/-- Whether a version is acceptable. -/
def admits (c : Constraint) (v : Version) : Bool :=
  match c with
  | .any => true
  | .revision r => v.revision? = some r
  | .branch name =>
    match v.named? with
    | some (.branch n _) => n = name
    | _ => false
  | .plain tag =>
    match v.named? with
    | some (.plain t) => t = tag
    | _ => false
  | .semver range =>
    match v.tag? with
    | some tag => range.admits tag
    | none => false

/-- Whether every version is acceptable. -/
def isAny : Constraint → Bool
  | .any => true
  | _ => false

/-- The branch asked for, if it is one. -/
def branch? : Constraint → Option String
  | .branch name => some name
  | _ => none

/-- The revision asked for, if it is one. -/
def revision? : Constraint → Option Revision
  | .revision r => some r
  | _ => none

/-- The name of a constraint's kind. -/
def label : Constraint → String
  | .any => "any"
  | .revision _ => "revision"
  | .branch _ => "branch"
  | .plain _ => "version"
  | .semver _ => "semver"

/-- The text of a constraint. -/
def toText : Constraint → String
  | .any => "*"
  | .revision r => r.text
  | .branch name => name
  | .plain tag => tag
  | .semver range => range.toText

end Constraint

end Depsolve
