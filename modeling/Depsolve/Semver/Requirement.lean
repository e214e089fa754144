import Depsolve.Semver.Reader

/-!
# Requirements on semantic versions

A requirement is a conjunction of comparators such as `>=1.2, <2`. The module holds the comparators
and their meaning (`Requirement.admits`), their text (`Requirement.toText`) and the reader of that
text (`Requirement.read`).
-/

namespace Depsolve.Semver

/-- How a comparator compares. -/
inductive Op
  | exact
  | greater
  | greaterEq
  | less
  | lessEq
  | tilde
  | caret
  | wildcard
deriving DecidableEq

/-- What a comparator says after the major number. -/
inductive Detail
  | none
  | minor (minor : Nat)
  /-- The minor and the patch number and a pre-release identifier, which may be absent. -/
  | full (minor patch : Nat) (pre : List String)
deriving DecidableEq

/-- One comparison with a version. -/
structure Comparator where
  op : Op
  major : Nat
  detail : Detail
deriving DecidableEq

/-- A conjunction of comparators; without any, every release satisfies it. -/
structure Requirement where
  /-- The comparators, all of which have to hold. -/
  comparators : List Comparator
deriving DecidableEq

namespace Comparator

/-- The parts that are given are those of the version, and so is the pre-release identifier. -/
def isExact (c : Comparator) (v : Semver) : Bool :=
  v.major = c.major &&
    match c.detail with
    | .none => v.pre.isEmpty
    | .minor minor => v.minor = minor && v.pre.isEmpty
    | .full minor patch pre => v.minor = minor && v.patch = patch && v.pre = pre

/-- `wanted` is the outcome of comparing the version with the parts that are given; a tie that a
missing part leaves undecided does not count. -/
def isBeyond (wanted : Ordering) (c : Comparator) (v : Semver) : Bool :=
  let outcome := compare v.major c.major
  match c.detail with
  | .none => outcome = wanted
  | .minor minor => outcome.then (compare v.minor minor) = wanted
  | .full minor patch pre =>
    (outcome.then <| (compare v.minor minor).then <|
      (compare v.patch patch).then (comparePre v.pre pre)) = wanted

/-- The version's numbers are the same up to the patch number, which may only be greater. -/
def isTilde (c : Comparator) (v : Semver) : Bool :=
  v.major = c.major &&
    match c.detail with
    | .none => v.pre.isEmpty
    | .minor minor => v.minor = minor && v.pre.isEmpty
    | .full minor patch pre =>
      v.minor = minor && ((compare v.patch patch).then (comparePre v.pre pre)).isGE

/-- The version agrees up to the leftmost number that is not zero, and does not come before the
comparator's. -/
def isCaret (c : Comparator) (v : Semver) : Bool :=
  v.major = c.major &&
    match c.detail with
    | .none => true
    | .minor minor => if c.major = 0 then v.minor = minor else minor ≤ v.minor
    | .full minor patch pre =>
      ((compare v.minor minor).then <|
        (compare v.patch patch).then (comparePre v.pre pre)).isGE &&
      (c.major ≠ 0 || (v.minor = minor && (minor ≠ 0 || v.patch = patch)))

/-- Whether a version satisfies the comparator, pre-releases taken as any other version. -/
def holds (c : Comparator) (v : Semver) : Bool :=
  match c.op with
  | .exact => c.isExact v
  | .wildcard => c.isExact v
  | .greater => c.isBeyond .gt v
  | .greaterEq => c.isExact v || c.isBeyond .gt v
  | .less => c.isBeyond .lt v
  | .lessEq => c.isExact v || c.isBeyond .lt v
  | .tilde => c.isTilde v
  | .caret => c.isCaret v

/-- A comparator that names a pre-release of the version's own three numbers speaks of its
pre-releases. -/
def namesPreOf (c : Comparator) (v : Semver) : Bool :=
  match c.detail with
  | .full minor patch pre =>
    c.major = v.major && minor = v.minor && patch = v.patch && ! pre.isEmpty
  | _ => false

end Comparator

namespace Requirement

/-- The requirement that every release satisfies. -/
def any : Requirement := ⟨[]⟩

/-- Whether a version satisfies the requirement: every comparator holds, and a pre-release is also
named by one of them. -/
def admits (r : Requirement) (v : Semver) : Bool :=
  r.comparators.all (·.holds v) && (v.pre.isEmpty || r.comparators.any (·.namesPreOf v))

end Requirement

/-- The sign of an operator. -/
def Op.sign : Op → String
  | .exact => "="
  | .greater => ">"
  | .greaterEq => ">="
  | .less => "<"
  | .lessEq => "<="
  | .tilde => "~"
  | .caret => "^"
  | .wildcard => ""

/-- The text of a comparator. -/
def Comparator.toText (c : Comparator) : String :=
  let star := if c.op = .wildcard then ".*" else ""
  c.op.sign ++ Nat.repr c.major ++
    match c.detail with
    | .none => star
    | .minor minor => "." ++ Nat.repr minor ++ star
    | .full minor patch pre =>
      "." ++ Nat.repr minor ++ "." ++ Nat.repr patch ++ identifierText "-" pre

/-- The text of a requirement. -/
def Requirement.toText (r : Requirement) : String :=
  if r.comparators.isEmpty then "*" else ", ".intercalate (r.comparators.map Comparator.toText)

/-! ## Reading -/

/-- The text after leading spaces; other white space stays. -/
def dropSpaces (cs : List Char) : List Char :=
  cs.dropWhile (· == ' ')

/-- A wildcard at the front, with the text behind it. -/
def wildcard? : List Char → Option (Char × List Char)
  | c :: rest => if c = '*' ∨ c = 'x' ∨ c = 'X' then some (c, rest) else none
  | [] => none

/-- Reads an operator sign, if there is one. -/
def readOp : List Char → Option Op × List Char
  | '=' :: rest => (some .exact, rest)
  | '>' :: '=' :: rest => (some .greaterEq, rest)
  | '>' :: rest => (some .greater, rest)
  | '<' :: '=' :: rest => (some .lessEq, rest)
  | '<' :: rest => (some .less, rest)
  | '~' :: rest => (some .tilde, rest)
  | '^' :: rest => (some .caret, rest)
  | rest => (none, rest)

/-- A part of a comparator as it is written. -/
inductive Part
  | absent
  | star
  | number (n : Nat)

/-- Reads the dot and the part behind it, if there is a dot. After a wildcard no number may come.
The position moves to the part that was started. -/
def readPart (pos last : Position) (afterStar : Bool) :
    List Char → Except ReadError (Part × Position × List Char)
  | '.' :: rest =>
    match wildcard? rest with
    | some (_, rest) => .ok (.star, pos, rest)
    | none =>
      if afterStar then .error .afterWildcard
      else do
        let (n, rest) ← readNumber pos rest
        return (.number n, pos, rest)
  | rest => .ok (.absent, last, rest)

/-- Reads one comparator and the spaces behind it, and tells which part it read last. -/
def readComparator (cs : List Char) : Except ReadError (Comparator × Position × List Char) := do
  let (op, rest) := readOp cs
  let (major, rest) ← readNumber .major (dropSpaces rest)
  let (minor, last, rest) ← readPart .minor .major false rest
  let (patch, last, rest) ← readPart .patch last (minor matches .star) rest
  match minor, patch with
  | .number m, .number p =>
    let (pre, last, rest) ← readSigned '-' .pre last rest
    let (_, last, rest) ← readSigned '+' .build last rest
    return (⟨op.getD .caret, major, .full m p pre⟩, last, dropSpaces rest)
  | .number m, .star => return (⟨op.getD .wildcard, major, .minor m⟩, last, dropSpaces rest)
  | .number m, .absent => return (⟨op.getD .caret, major, .minor m⟩, last, dropSpaces rest)
  | .star, _ => return (⟨op.getD .wildcard, major, .none⟩, last, dropSpaces rest)
  | .absent, _ => return (⟨op.getD .caret, major, .none⟩, last, dropSpaces rest)

/-- The wildcard that stands where a comparator should, alone between the commas. -/
def loneWildcard? (cs : List Char) : Option Char :=
  match wildcard? cs with
  | none => none
  | some (c, rest) =>
    match dropSpaces rest with
    | [] => some c
    | ',' :: _ => some c
    | _ :: _ => none

/-- Reads at most `limit + 1` comparators with commas between them, up to the end of the text. -/
def readComparators (limit : Nat) (cs : List Char) : Except ReadError (List Comparator) :=
  match readComparator cs with
  | .error e =>
    match loneWildcard? cs with
    | some c => .error (.wildcardNotAlone c)
    | none => .error e
  | .ok (c, _, []) => .ok [c]
  | .ok (c, last, d :: rest) =>
    if d = ',' then
      match limit with
      | 0 => .error .tooManyComparators
      | n + 1 => (readComparators n (dropSpaces rest)).map (c :: ·)
    else .error (.expectedComma last d)

/-- The number of comparators a requirement may have. -/
def maxComparators : Nat := 32

/-- Reads a whole text as a requirement. -/
def Requirement.readChars (cs : List Char) : Except ReadError Requirement :=
  let cs := dropSpaces cs
  match wildcard? cs with
  | some (c, rest) =>
    match dropSpaces rest with
    | [] => .ok .any
    | ',' :: _ => .error (.wildcardNotAlone c)
    | _ :: _ => .error .afterWildcard
  | none => (readComparators (maxComparators - 1) cs).map Requirement.mk

/-- Reads a text as a requirement. -/
def Requirement.read (text : String) : Except ReadError Requirement :=
  readChars text.toList

end Depsolve.Semver
