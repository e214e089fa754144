import Depsolve.Semver.Requirement
import Depsolve.Version.Basic

/-!
# Ranges of semantic versions

A range is a union of requirements, written with `||` between them. Its syntax is wider than that of
requirements: comparators may be separated by white space as well as by commas, an operator may
stand apart from its version, a version may carry a leading `v`, and `1.0 - 2.0` is the interval
between two versions with both ends included.

`Range.read` reads a range, `Range.toText` writes it and `Range.admits` is its meaning.
-/

namespace Depsolve

/-- A union of requirements. -/
structure Range where
  /-- The requirements, one of which has to be satisfied. -/
  alternatives : List Semver.Requirement
deriving DecidableEq

/-- Why a text is no range. -/
inductive RangeError
  /-- Nothing stands between two `||` or in the whole text. -/
  | emptyAlternative
  /-- An operator at the end has no version behind it. -/
  | danglingOperator (op : String)
  | unreadable (error : Semver.ReadError)
deriving DecidableEq

/-- The wording of an error. -/
def RangeError.message : RangeError → String
  | .emptyAlternative => "empty range"
  | .danglingOperator op => "operator '" ++ op ++ "' has no version"
  | .unreadable error => error.message

namespace Range

/-- The range of the versions that are compatible with one version. -/
def caret (tag : Tag) : Range :=
  let v := tag.version
  ⟨[⟨[⟨.caret, v.major, .full v.minor v.patch v.pre⟩]⟩]⟩

/-- Whether the range contains a tag's version. -/
def admits (range : Range) (tag : Tag) : Bool :=
  range.alternatives.any (·.admits tag.version)

/-- The text of a range. -/
def toText (range : Range) : String :=
  " || ".intercalate (range.alternatives.map Semver.Requirement.toText)

/-! ## Reading -/

/-- The stretches between occurrences of `||`. -/
def splitBars : List Char → List (List Char)
  | [] => [[]]
  | '|' :: '|' :: rest => [] :: splitBars rest
  | c :: rest =>
    match splitBars rest with
    | [] => [[c]]
    | first :: others => (c :: first) :: others

/-- The characters of operators. -/
def isOpChar (c : Char) : Bool :=
  c == '<' || c == '>' || c == '=' || c == '~' || c == '^'

/-- The operator and the version of a token, the version without one leading `v`. -/
def splitOp (token : List Char) : List Char × List Char :=
  let version :=
    match token.dropWhile isOpChar with
    | 'v' :: rest => rest
    | rest => rest
  (token.takeWhile isOpChar, version)

/-- The comparators that tokens spell. A token of operator characters only belongs to the version
that follows it; `pending` holds such tokens. -/
def comparatorTexts (pending : List Char) : List (List Char) → Except RangeError (List (List Char))
  | [] => if pending.isEmpty then .ok [] else .error (.danglingOperator (String.ofList pending))
  | token :: rest =>
    if token.all isOpChar then comparatorTexts (pending ++ token) rest
    else
      let (op, version) := splitOp token
      (comparatorTexts [] rest).map ((pending ++ op ++ version) :: ·)

/-- Reads the comma-separated comparators as a requirement. -/
def readRequirement (texts : List (List Char)) : Except RangeError Semver.Requirement :=
  (Semver.Requirement.readChars ([',', ' '].intercalate texts)).mapError .unreadable

/-- A separator of comparators. -/
def isSeparator (c : Char) : Bool :=
  c == ',' || Text.isBlank c

/-- Reads one end of an interval. -/
def readEnd (token : List Char) : Except RangeError Semver :=
  (Semver.readLenient (String.ofList token)).mapError .unreadable

/-- Reads the tokens of one alternative. -/
def readTokens (tokens : List (List Char)) : Except RangeError Semver.Requirement := do
  match tokens with
  | [low, ['-'], high] =>
    let low ← readEnd low
    let high ← readEnd high
    readRequirement ['>' :: '=' :: low.toText.toList, '<' :: '=' :: high.toText.toList]
  | tokens => readRequirement (← comparatorTexts [] tokens)

/-- Reads one alternative. -/
def readAlternative (cs : List Char) : Except RangeError Semver.Requirement :=
  let cs := Text.trim cs
  if cs.isEmpty then .error .emptyAlternative
  else readTokens (Text.stretches isSeparator cs)

/-- Reads a range. -/
def read (text : String) : Except RangeError Range :=
  ((splitBars text.toList).mapM readAlternative).map Range.mk

end Range

end Depsolve
