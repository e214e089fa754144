import Depsolve.Constraint.Range

/-!
# Faults

Everything that can go wrong, as causes: `SourceFault` for a source of projects that cannot answer,
`ConversionFault` for an entry of a foreign configuration, and `Fault` for all of it. The wording is
in the `message` function of each.
-/

namespace Depsolve

/-- Why a source of projects cannot answer. -/
inductive SourceFault
  | projectNotFound (project : String)
  | versionNotFound (project version : String)
  /-- No project is known to own an import path. -/
  | rootUnknown (path reason : String)
  /-- The source itself failed. -/
  | backend (project problem : String)
deriving DecidableEq

namespace SourceFault

/-- The project or import path that could not be answered for. -/
def subject : SourceFault → String
  | .projectNotFound project => project
  | .versionNotFound project _ => project
  | .rootUnknown path _ => path
  | .backend project _ => project

/-- The wording of the fault. -/
def message : SourceFault → String
  | .projectNotFound project => "project " ++ project ++ " could not be found"
  | .versionNotFound project version => project ++ " has no version " ++ version
  | .rootUnknown path reason =>
    "could not deduce the project root of '" ++ path ++ "': " ++ reason
  | .backend project problem => project ++ ": " ++ problem

end SourceFault

/-- The part of a project's declaration in which two entries differ. -/
inductive Field
  | source
  | constraint
  | revision
deriving DecidableEq

/-- The name of a part of a declaration. -/
def Field.name : Field → String
  | .source => "source"
  | .constraint => "constraint"
  | .revision => "revision"

/-- Why an entry of a foreign configuration cannot be converted. -/
inductive ConversionFault
  /-- The entry at a position has no name. -/
  | emptyName (index : Nat)
  /-- An ignored package is no import path. -/
  | invalidIgnore (path : String)
  /-- A hint looks like a range and is none. -/
  | invalidHint (project hint : String) (error : RangeError)
  | emptyRevision (project : String)
  /-- Two entries of one project contradict each other. -/
  | contradiction (project : String) (field : Field)
  | unknownRoot (path reason : String)
deriving DecidableEq

/-- The wording of the fault that a text is no range. -/
def RangeError.complaint (input : String) (error : RangeError) : String :=
  "Invalid constraint '" ++ input ++ "': " ++ error.message

/-- The wording of the fault. -/
def ConversionFault.message : ConversionFault → String
  | .emptyName index => "package entry #" ++ Nat.repr index ++ " has an empty name"
  | .invalidIgnore path => "ignored package '" ++ path ++ "' is not a valid import path"
  | .invalidHint project hint error =>
    "constraint '" ++ hint ++ "' for " ++ project ++ " is not a valid version: " ++
      error.complaint hint
  | .emptyRevision project => "package entry for " ++ project ++ " has an empty revision"
  | .contradiction project field =>
    project ++ " is declared more than once with a different " ++ field.name
  | .unknownRoot path reason =>
    "could not determine the project root of '" ++ path ++ "': " ++ reason

/-- A requirement or a failed candidate that takes part in an unsolvable conflict. -/
structure Conflict where
  depender : String
  constraint : String
  reason : String
deriving DecidableEq

/-- The wording of a conflict. -/
def Conflict.message (c : Conflict) : String :=
  c.depender ++ " requires " ++ c.constraint ++ ": " ++ c.reason

/-- Everything that can go wrong. -/
inductive Fault
  /-- A file is no TOML, or TOML of the wrong shape. -/
  | toml (file problem : String)
  /-- A text is no JSON, or JSON of the wrong shape. -/
  | json
  /-- A field of a manifest has an impossible value. -/
  | manifest (field reason : String)
  /-- An entry of a lock has an impossible value. -/
  | lock (project reason : String)
  | version (input : String) (error : Semver.ReadError)
  | constraint (input : String) (error : RangeError)
  | lookup (cause : SourceFault)
  | conversion (cause : ConversionFault)
  /-- A version that a depender does not accept is selected already. -/
  | conflict (project depender constraint selected : String)
  | unsolvable (project : String) (conflicts : List Conflict)
  | cancelled
  | io (problem : String)
deriving DecidableEq

namespace Fault

/-- The wording of a fault. -/
def message : Fault → String
  | .toml file problem => "Failed to parse " ++ file ++ ": " ++ problem
  | .json => "Failed to parse JSON"
  | .manifest field reason => "Manifest field '" ++ field ++ "' is invalid: " ++ reason
  | .lock project reason => "Lock entry for '" ++ project ++ "' is invalid: " ++ reason
  | .version input error => "Invalid version '" ++ input ++ "': " ++ error.message
  | .constraint input error => error.complaint input
  | .lookup cause =>
    "Could not read version control metadata for " ++ cause.subject ++ ": " ++ cause.message
  | .conversion cause => "Conversion failed: " ++ cause.message
  | .conflict project depender asked selected =>
    "Constraint conflict on " ++ project ++ ": " ++ depender ++ " requires " ++ asked ++
      ", but " ++ selected ++ " is selected"
  | .unsolvable project conflicts =>
    "\n  ".intercalate
      (("No versions of " ++ project ++ " met all constraints") :: conflicts.map Conflict.message)
  | .cancelled => "Resolution was cancelled"
  | .io problem => "IO error: " ++ problem

/-- Whether trying again may help: the fault lies in the network, a repository or a file, not in
what was declared. -/
def isRecoverable : Fault → Bool
  | .lookup _ => true
  | .io _ => true
  | _ => false

/-- What the user can do about a fault. -/
def suggestion? : Fault → Option String
  | .lookup _ => some "Check network access to the project's repository and try again"
  | .unsolvable .. =>
    some "Relax the listed constraints or add an override for the conflicting project"
  | .conversion _ =>
    some "Fix the reported entry in the imported configuration and re-run the import"
  | .constraint .. => some "Use a semver range such as '^1.2.0', a branch name or a full revision"
  | .toml .. => some "Check tether.toml for typos or unsupported keys"
  | .manifest .. => some "Check tether.toml for typos or unsupported keys"
  | _ => none

end Fault

/-- Reads a semver tag; a text that is none is a fault. -/
def readTag (text : String) : Except Fault Tag :=
  (Tag.read text).mapError (.version text)

end Depsolve
