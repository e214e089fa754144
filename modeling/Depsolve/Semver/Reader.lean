import Depsolve.Semver.Basic
import Depsolve.Semver.ReadError
import Depsolve.Text.Blank

/-!
# Reading semantic versions

`Semver.read` accepts `MAJOR.MINOR.PATCH[-PRE][+BUILD]` and names the first problem of any other
text. `Semver.readLenient` also accepts white space around the version, one `v` before it and
missing minor and patch numbers.
-/

namespace Depsolve.Semver

/-- Reads a decimal number: the longest run of digits, without a leading zero, up to `maxNumber`. -/
def readNumber (pos : Position) (cs : List Char) : Except ReadError (Nat × List Char) :=
  let rest := cs.dropWhile Char.isDigit
  match cs.takeWhile Char.isDigit with
  | [] =>
    match rest with
    | [] => .error (.unexpectedEnd pos)
    | c :: _ => .error (.unexpectedChar pos c)
  | '0' :: _ :: _ => .error (.leadingZero pos)
  | digits =>
    let value := Nat.ofDigitChars 10 digits 0
    if value ≤ maxNumber then .ok (value, rest) else .error (.overflow pos)

/-- Reads the dot that must follow the number at `pos`. -/
def readDot (pos : Position) : List Char → Except ReadError (List Char)
  | '.' :: rest => .ok rest
  | c :: _ => .error (.unexpectedCharAfter pos c)
  | [] => .error (.unexpectedEnd pos)

/-- The characters of an identifier's segments: ASCII letters, digits and the hyphen. -/
def isSegmentChar (c : Char) : Bool :=
  c.isAlphanum || c == '-'

/-- Checks one segment: it has characters, and in a pre-release identifier a number has no leading
zero. -/
def checkSegment (pos : Position) : List Char → Except ReadError Unit
  | [] => .error (.emptySegment pos)
  | '0' :: d :: ds =>
    if pos = .pre ∧ (d :: ds).all Char.isDigit then .error (.leadingZero pos) else .ok ()
  | _ :: _ => .ok ()

/-- Reads an identifier: segments with dots between them, up to the first other character. -/
def readIdentifier (pos : Position) (cs : List Char) :
    Except ReadError (List String × List Char) := do
  let isPart (c : Char) : Bool := isSegmentChar c || c == '.'
  let segments := (cs.takeWhile isPart).splitOnP (· == '.')
  segments.forM (checkSegment pos)
  return (segments.map String.ofList, cs.dropWhile isPart)

/-- Reads an identifier after its sign; without the sign there is none, and the position stays. -/
def readSigned (sign : Char) (pos last : Position) :
    List Char → Except ReadError (List String × Position × List Char)
  | [] => .ok ([], last, [])
  | c :: rest =>
    if c = sign then do
      let (segments, rest) ← readIdentifier pos rest
      return (segments, pos, rest)
    else .ok ([], last, c :: rest)

/-- Reads a whole text as a version. -/
def readChars (cs : List Char) : Except ReadError Semver := do
  if cs.isEmpty then
    throw .emptyText
  let (major, rest) ← readNumber .major cs
  let rest ← readDot .major rest
  let (minor, rest) ← readNumber .minor rest
  let rest ← readDot .minor rest
  let (patch, rest) ← readNumber .patch rest
  let (pre, last, rest) ← readSigned '-' .pre .patch rest
  let (build, last, rest) ← readSigned '+' .build last rest
  match rest with
  | [] => return { major, minor, patch, pre, build }
  | c :: _ => throw (.unexpectedCharAfter last c)

/-- Reads a text as a version. -/
def read (text : String) : Except ReadError Semver :=
  readChars text.toList

/-- The numbers of a version text and what follows them: the cut is before the first `-` or `+`. -/
def splitCore (cs : List Char) : List Char × List Char :=
  let isSign (c : Char) : Bool := c == '-' || c == '+'
  (cs.takeWhile (! isSign ·), cs.dropWhile (! isSign ·))

/-- The text with zeros for a missing patch number, or for missing minor and patch numbers; none if
no number is missing. -/
def padded? (cs : List Char) : Option (List Char) :=
  let (core, rest) := splitCore cs
  match core.count '.' with
  | 0 => some (core ++ ['.', '0', '.', '0'] ++ rest)
  | 1 => some (core ++ ['.', '0'] ++ rest)
  | _ => none

/-- The text without one leading `v` or `V`. -/
def dropV : List Char → List Char
  | 'v' :: rest => rest
  | 'V' :: rest => rest
  | cs => cs

/-- Reads a version with missing numbers taken as zero. The problem named is that of the text as it
stands. -/
def readPadded (cs : List Char) : Except ReadError Semver :=
  match readChars cs with
  | .ok v => .ok v
  | .error e =>
    match padded? cs with
    | none => .error e
    | some full => (readChars full).mapError fun _ => e

/-- Reads a version as tags write it: white space around it, one `v` before it, and numbers left out
at the end are all right. -/
def readLenient (text : String) : Except ReadError Semver :=
  readPadded (dropV (Text.trim text.toList))

end Depsolve.Semver
