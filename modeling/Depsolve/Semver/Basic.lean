/-!
# Semantic versions

A version number of three parts with optional pre-release and build identifiers, its text
(`Semver.toText`) and the two orders on it: `Semver.precedence`, which ignores the build
identifiers, and `Semver.compareBuild`, which looks at nothing else.

An identifier is the list of its dot-separated segments; the empty list is the absent identifier.
-/

namespace Depsolve

/-- A semantic version. -/
structure Semver where
  /-- Counts incompatible changes. -/
  major : Nat
  /-- Counts compatible additions. -/
  minor : Nat
  /-- Counts repairs. -/
  patch : Nat
  /-- The segments of the pre-release identifier; none for a release. -/
  pre : List String
  /-- The segments of the build identifier. -/
  build : List String
deriving DecidableEq, Inhabited

namespace Semver

/-- The greatest number a part may have. -/
def maxNumber : Nat := 18446744073709551615

/-- A segment of digits only. -/
def isNumeric (segment : String) : Bool :=
  segment.toList.all Char.isDigit

/-- Numeric segments come before the others; `onNumeric` decides between two of them, and two others
go by their characters. -/
def compareSegment (onNumeric : String → String → Ordering) (a b : String) : Ordering :=
  match isNumeric a, isNumeric b with
  | true, true => onNumeric a b
  | true, false => .lt
  | false, true => .gt
  | false, false => compare a b

/-- The order of numbers without leading zeros: by length, then by digits. -/
def compareDigits (a b : String) : Ordering :=
  (compare a.length b.length).then (compare a b)

/-- The order of digit texts with leading zeros: by the number, then by length. -/
def comparePadded (a b : String) : Ordering :=
  let strip (s : String) : String := String.ofList (s.toList.dropWhile (· == '0'))
  (compareDigits (strip a) (strip b)).then (compare a.length b.length)

/-- The order of pre-release identifiers: the absent one is the greatest, and fewer segments come
first among those that agree on the rest. -/
def comparePre : List String → List String → Ordering
  | [], [] => .eq
  | [], _ :: _ => .gt
  | _ :: _, [] => .lt
  | a :: as, b :: bs => List.compareLex (compareSegment compareDigits) (a :: as) (b :: bs)

/-- The order of build identifiers: the absent one is the smallest. -/
def compareBuild (a b : List String) : Ordering :=
  List.compareLex (compareSegment comparePadded) a b

/-- The precedence of versions: by the three numbers, then by the pre-release identifiers. -/
def precedence (a b : Semver) : Ordering :=
  (compare a.major b.major).then <| (compare a.minor b.minor).then <|
    (compare a.patch b.patch).then (comparePre a.pre b.pre)

/-- The text of an identifier after its sign; nothing for the absent one. -/
def identifierText (sign : String) (segments : List String) : String :=
  if segments.isEmpty then "" else sign ++ ".".intercalate segments

/-- The text of a version. -/
def toText (v : Semver) : String :=
  Nat.repr v.major ++ "." ++ Nat.repr v.minor ++ "." ++ Nat.repr v.patch ++
    identifierText "-" v.pre ++ identifierText "+" v.build

end Semver

end Depsolve
