import Depsolve.Text.Quoted

/-!
# Errors in version texts

Why a text is no semantic version, or no requirement on one. `ReadError.message` is the wording.
-/

namespace Depsolve.Semver

/-- The part of a version text that was being read. -/
inductive Position
  | major
  | minor
  | patch
  | pre
  | build
deriving DecidableEq

/-- The name of a part in messages. -/
def Position.name : Position → String
  | .major => "major version number"
  | .minor => "minor version number"
  | .patch => "patch version number"
  | .pre => "pre-release identifier"
  | .build => "build metadata"

/-- Why a text is no semantic version or no requirement. -/
inductive ReadError
  | emptyText
  /-- The text ends inside or right after a part that needs more. -/
  | unexpectedEnd (pos : Position)
  /-- A part starts with a character it cannot have. -/
  | unexpectedChar (pos : Position) (c : Char)
  /-- A part is followed by a character that cannot follow it. -/
  | unexpectedCharAfter (pos : Position) (c : Char)
  /-- A comparator is followed by something other than a comma. -/
  | expectedComma (pos : Position) (c : Char)
  | leadingZero (pos : Position)
  | overflow (pos : Position)
  /-- An identifier has a segment without characters. -/
  | emptySegment (pos : Position)
  /-- A lone wildcard stands beside other comparators. -/
  | wildcardNotAlone (c : Char)
  /-- Something follows a wildcard that cannot follow it. -/
  | afterWildcard
  /-- More comparators than a requirement may have. -/
  | tooManyComparators
deriving DecidableEq

/-- The wording of an error. -/
def ReadError.message : ReadError → String
  | .emptyText => "empty string, expected a semver version"
  | .unexpectedEnd pos => "unexpected end of input while parsing " ++ pos.name
  | .unexpectedChar pos c =>
      "unexpected character " ++ Text.quoted c ++ " while parsing " ++ pos.name
  | .unexpectedCharAfter pos c => "unexpected character " ++ Text.quoted c ++ " after " ++ pos.name
  | .expectedComma pos c => "expected comma after " ++ pos.name ++ ", found " ++ Text.quoted c
  | .leadingZero pos => "invalid leading zero in " ++ pos.name
  | .overflow pos => "value of " ++ pos.name ++ " exceeds u64::MAX"
  | .emptySegment pos => "empty identifier segment in " ++ pos.name
  | .wildcardNotAlone c =>
    "wildcard req (" ++ String.singleton c ++ ") must be the only comparator in the version req"
  | .afterWildcard => "unexpected character after wildcard in version req"
  | .tooManyComparators => "excessive number of version comparators"

end Depsolve.Semver
