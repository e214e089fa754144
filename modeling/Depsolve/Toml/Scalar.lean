import Depsolve.Text.Hex
import Depsolve.Toml.Value

/-!
# TOML scalars

The readers of keys, strings, numbers, dates and times. Each takes the characters in front of it and
gives what it read together with the rest, or nothing where the text is no TOML.

Readers of bodies of unknown length take the number of steps they may make; the length of the text
is always enough, since every step takes a character.
-/

namespace Depsolve.Toml

/-- Space or tab. -/
def isSpace (c : Char) : Bool :=
  c == ' ' || c == '\t'

/-- The text after leading spaces and tabs. -/
def dropSpace (cs : List Char) : List Char :=
  cs.dropWhile isSpace

/-- A character that comments and strings may hold as it is: no control character except the tab. -/
def isPlain (c : Char) : Bool :=
  c == '\t' || (0x20 ≤ c.toNat && c.toNat ≠ 0x7F)

/-- The text after a line break, if one is in front. -/
def newline? : List Char → Option (List Char)
  | '\n' :: rest => some rest
  | '\r' :: '\n' :: rest => some rest
  | _ => none

/-- The text after a comment, if one is in front. -/
def dropComment : List Char → List Char
  | '#' :: rest => rest.dropWhile isPlain
  | rest => rest

/-! ## Strings -/

/-- Reads the number of a character in exactly `count` hexadecimal digits. -/
def readCodePoint (count : Nat) (cs : List Char) : Option (Char × List Char) := do
  let (n, rest) ← Text.readHex count cs
  return (← Text.charOf? n, rest)

/-- Reads an escape after its backslash. -/
def readEscape : List Char → Option (Char × List Char)
  | 'b' :: rest => some ('\x08', rest)
  | 't' :: rest => some ('\t', rest)
  | 'n' :: rest => some ('\n', rest)
  | 'f' :: rest => some ('\x0c', rest)
  | 'r' :: rest => some ('\r', rest)
  | '"' :: rest => some ('"', rest)
  | '\\' :: rest => some ('\\', rest)
  | 'u' :: rest => readCodePoint 4 rest
  | 'U' :: rest => readCodePoint 8 rest
  | _ => none

/-- Reads a one-line string with escapes after its opening quote. -/
def readBasic : Nat → List Char → Option (List Char × List Char)
  | 0, _ => none
  | _ + 1, [] => none
  | n + 1, c :: rest =>
    if c = '"' then some ([], rest)
    else if c = '\\' then do
      let (d, rest) ← readEscape rest
      let (body, rest) ← readBasic n rest
      return (d :: body, rest)
    else if isPlain c then do
      let (body, rest) ← readBasic n rest
      return (c :: body, rest)
    else none

/-- Reads a one-line string without escapes after its opening quote. -/
def readLiteral (cs : List Char) : Option (List Char × List Char) :=
  let isBody (c : Char) : Bool := isPlain c && c != '\''
  match cs.dropWhile isBody with
  | '\'' :: rest => some (cs.takeWhile isBody, rest)
  | _ => none

/-- Up to two quotes before the three that close a text of several lines, and the rest after them;
none if the text is not closed here. -/
def closing? (q : Char) (cs : List Char) : Option (List Char × List Char) :=
  let quotes := (cs.takeWhile (· == q)).length
  if quotes < 3 then none
  else
    let extra := min (quotes - 3) 2
    some (List.replicate extra q, cs.drop (extra + 3))

/-- The text after all white space and line breaks in front. -/
def dropBreaks : List Char → List Char
  | ' ' :: rest => dropBreaks rest
  | '\t' :: rest => dropBreaks rest
  | '\n' :: rest => dropBreaks rest
  | '\r' :: '\n' :: rest => dropBreaks rest
  | rest => rest

/-- Reads a string of several lines with escapes after its opening quotes. A backslash at the end of
a line drops the line break and the white space after it. -/
def readLongBasic : Nat → List Char → Option (List Char × List Char)
  | 0, _ => none
  | n + 1, cs =>
    match closing? '"' cs with
    | some closed => some closed
    | none =>
      match cs with
      | [] => none
      | '\\' :: rest =>
        match newline? (dropSpace rest) with
        | some rest => readLongBasic n (dropBreaks rest)
        | none => do
          let (d, rest) ← readEscape rest
          let (body, rest) ← readLongBasic n rest
          return (d :: body, rest)
      | c :: rest =>
        match newline? (c :: rest) with
        | some rest => do
          let (body, rest) ← readLongBasic n rest
          return ('\n' :: body, rest)
        | none =>
          if isPlain c then do
            let (body, rest) ← readLongBasic n rest
            return (c :: body, rest)
          else none

/-- Reads a string of several lines without escapes after its opening quotes. -/
def readLongLiteral : Nat → List Char → Option (List Char × List Char)
  | 0, _ => none
  | n + 1, cs =>
    match closing? '\'' cs with
    | some closed => some closed
    | none =>
      match cs with
      | [] => none
      | c :: rest =>
        match newline? (c :: rest) with
        | some rest => do
          let (body, rest) ← readLongLiteral n rest
          return ('\n' :: body, rest)
        | none =>
          if isPlain c then do
            let (body, rest) ← readLongLiteral n rest
            return (c :: body, rest)
          else none

/-- Reads a string of any of the four forms. -/
def readString (cs : List Char) : Option (String × List Char) := do
  let skipBreak (cs : List Char) : List Char := (newline? cs).getD cs
  let (body, rest) ←
    match cs with
    | '"' :: '"' :: '"' :: rest => readLongBasic (rest.length + 1) (skipBreak rest)
    | '"' :: rest => readBasic (rest.length + 1) rest
    | '\'' :: '\'' :: '\'' :: rest => readLongLiteral (rest.length + 1) (skipBreak rest)
    | '\'' :: rest => readLiteral rest
    | _ => none
  return (String.ofList body, rest)

/-! ## Keys -/

/-- The characters of keys without quotes. -/
def isBareKeyChar (c : Char) : Bool :=
  c.isAlphanum || c == '-' || c == '_'

/-- Reads one segment of a key. -/
def readSegment (cs : List Char) : Option (String × List Char) :=
  match cs with
  | '"' :: rest => do
    let (body, rest) ← readBasic (rest.length + 1) rest
    return (String.ofList body, rest)
  | '\'' :: rest => do
    let (body, rest) ← readLiteral rest
    return (String.ofList body, rest)
  | cs =>
    match cs.takeWhile isBareKeyChar with
    | [] => none
    | body => some (String.ofList body, cs.dropWhile isBareKeyChar)

/-- Reads a key of at most so many segments, with the white space around each. -/
def readKey : Nat → List Char → Option (List String × List Char)
  | 0, _ => none
  | n + 1, cs => do
    let (segment, rest) ← readSegment (dropSpace cs)
    match dropSpace rest with
    | '.' :: rest =>
      let (segments, rest) ← readKey n rest
      return (segment :: segments, rest)
    | rest => return ([segment], rest)

/-! ## Numbers -/

/-- The digits that satisfy `p`, with single underscores between them. -/
def readDigits (p : Char → Bool) : List Char → Option (List Char × List Char)
  | [] => none
  | c :: rest =>
    if p c then
      match rest with
      | [] => some ([c], [])
      | '_' :: rest => (readDigits p rest).map fun (digits, rest) => (c :: digits, rest)
      | d :: rest =>
        if p d then (readDigits p (d :: rest)).map fun (digits, rest) => (c :: digits, rest)
        else some ([c], d :: rest)
    else none

/-- Reads a sign, if there is one; true stands for minus. -/
def readSign : List Char → Bool × List Char
  | '+' :: rest => (false, rest)
  | '-' :: rest => (true, rest)
  | rest => (false, rest)

/-- Reads the digits of a decimal integer: a zero, or digits that do not start with one. -/
def readDecimalDigits : List Char → Option (List Char × List Char)
  | '0' :: rest => some (['0'], rest)
  | rest => readDigits Char.isDigit rest

/-- The number that digits in some base spell. -/
def digitsValue (base : Nat) (digits : List Char) : Nat :=
  digits.foldl (fun n c => base * n + (Text.hexDigit? c).getD 0) 0

/-- The greatest integer of 64 bits. -/
def maxInteger : Nat := 9223372036854775807

/-- Reads the digits of an integer written in another base. -/
def readBased (base : Nat) (cs : List Char) : Option (Value × List Char) := do
  let isDigit (c : Char) : Bool := (Text.hexDigit? c).any (· < base)
  let (digits, rest) ← readDigits isDigit cs
  let n := digitsValue base digits
  guard (n ≤ maxInteger)
  return (.integer n, rest)

/-- Reads an integer of 64 bits. -/
def readInteger (cs : List Char) : Option (Value × List Char) :=
  match cs with
  | '0' :: 'x' :: rest => readBased 16 rest
  | '0' :: 'o' :: rest => readBased 8 rest
  | '0' :: 'b' :: rest => readBased 2 rest
  | cs => do
    let (negative, rest) := readSign cs
    let (digits, rest) ← readDecimalDigits rest
    let n : Int := if negative then -(digitsValue 10 digits : Int) else digitsValue 10 digits
    guard (-(maxInteger : Int) - 1 ≤ n ∧ n ≤ maxInteger)
    return (.integer n, rest)

/-- Whether `digits · 10^exponent` rounds to a number beyond the greatest of double precision. -/
def overflows (digits : List Char) (exponent : Int) : Bool :=
  let mantissa := digitsValue 10 digits
  let limit := Nat.pow 2 1024 - Nat.pow 2 970
  if mantissa = 0 then false
  else if 400 < exponent then true
  else if 0 ≤ exponent then limit ≤ mantissa * Nat.pow 10 exponent.toNat
  else if (digits.length : Int) + exponent < 300 then false
  else limit * Nat.pow 10 (-exponent).toNat ≤ mantissa

/-- Reads a fraction after its point. -/
def readFraction : List Char → Option (Option (List Char) × List Char)
  | '.' :: rest => do
    let (digits, rest) ← readDigits Char.isDigit rest
    return (some digits, rest)
  | rest => some (none, rest)

/-- Reads an exponent, if there is one. -/
def readExponent : List Char → Option (Option Int × List Char)
  | [] => some (none, [])
  | c :: rest =>
    if c = 'e' ∨ c = 'E' then do
      let (negative, rest) := readSign rest
      let (digits, rest) ← readDigits Char.isDigit rest
      let n : Int := digitsValue 10 digits
      return (some (if negative then -n else n), rest)
    else some (none, c :: rest)

/-- The text before the rest of a longer text. -/
def textBefore (cs rest : List Char) : String :=
  String.ofList (cs.take (cs.length - rest.length))

/-- Reads a number that is no integer. A positive one may not be too large. -/
def readFloat (cs : List Char) : Option (Value × List Char) :=
  let (negative, unsigned) := readSign cs
  match unsigned with
  | 'i' :: 'n' :: 'f' :: rest => some (.float (textBefore cs rest), rest)
  | 'n' :: 'a' :: 'n' :: rest => some (.float (textBefore cs rest), rest)
  | unsigned => do
    let (whole, rest) ← readDecimalDigits unsigned
    let (fraction, rest) ← readFraction rest
    let (exponent, rest) ← readExponent rest
    guard (fraction.isSome || exponent.isSome)
    let places := fraction.getD []
    guard (negative || ! overflows (whole ++ places) (exponent.getD 0 - places.length))
    return (.float (textBefore cs rest), rest)

/-! ## Dates and times -/

/-- Reads a number of exactly `count` digits. -/
def readFixed (count : Nat) (cs : List Char) : Option (Nat × List Char) :=
  let digits := cs.take count
  if digits.length = count ∧ digits.all Char.isDigit then
    some (digitsValue 10 digits, cs.drop count)
  else none

/-- The text after one character, if it is in front. -/
def readChar (c : Char) : List Char → Option (List Char)
  | d :: rest => if d = c then some rest else none
  | [] => none

/-- The number of days in a month. -/
def daysIn (year month : Nat) : Nat :=
  let isLeap := year % 4 = 0 ∧ (year % 100 ≠ 0 ∨ year % 400 = 0)
  if month = 2 then (if isLeap then 29 else 28)
  else if month = 4 ∨ month = 6 ∨ month = 9 ∨ month = 11 then 30
  else 31

/-- The text after a date. -/
def readDate (cs : List Char) : Option (List Char) := do
  let (year, rest) ← readFixed 4 cs
  let rest ← readChar '-' rest
  let (month, rest) ← readFixed 2 rest
  let rest ← readChar '-' rest
  let (day, rest) ← readFixed 2 rest
  guard (1 ≤ month ∧ month ≤ 12 ∧ 1 ≤ day ∧ day ≤ daysIn year month)
  return rest

/-- The text after a time of day. -/
def readTime (cs : List Char) : Option (List Char) := do
  let (hour, rest) ← readFixed 2 cs
  let rest ← readChar ':' rest
  let (minute, rest) ← readFixed 2 rest
  let rest ← readChar ':' rest
  let (second, rest) ← readFixed 2 rest
  guard (hour ≤ 23 ∧ minute ≤ 59 ∧ second ≤ 60)
  match rest with
  | '.' :: d :: more =>
    if d.isDigit then return more.dropWhile Char.isDigit else return rest
  | rest => return rest

/-- The text after an offset from universal time. -/
def readOffset : List Char → Option (List Char)
  | [] => none
  | c :: rest =>
    if c = 'Z' ∨ c = 'z' then some rest
    else if c = '+' ∨ c = '-' then do
      let (hour, rest) ← readFixed 2 rest
      let rest ← readChar ':' rest
      let (minute, rest) ← readFixed 2 rest
      guard (hour ≤ 23 ∧ minute ≤ 59)
      return rest
    else none

/-- The text after the time of a day that follows its date, and after the offset, if there is
one. -/
def dropTimeOfDay (cs : List Char) : List Char :=
  match cs with
  | c :: rest =>
    if c = 'T' ∨ c = 't' ∨ c = ' ' then
      match readTime rest with
      | some rest => (readOffset rest).getD rest
      | none => cs
    else cs
  | [] => []

/-- Reads a date, a time or both. -/
def readDatetime (cs : List Char) : Option (Value × List Char) := do
  let rest ←
    match readDate cs with
    | some rest => some (dropTimeOfDay rest)
    | none => readTime cs
  return (.datetime (textBefore cs rest), rest)

/-- Reads a word, if it is in front. -/
def readWord (word : List Char) (v : Value) (cs : List Char) : Option (Value × List Char) :=
  if word.isPrefixOf cs then some (v, cs.drop word.length) else none

/-- Reads a value that is neither a list nor a table. -/
def readScalar (cs : List Char) : Option (Value × List Char) :=
  match cs with
  | [] => none
  | c :: _ =>
    if c = '"' ∨ c = '\'' then (readString cs).map fun (s, rest) => (.string s, rest)
    else if c = 't' then readWord ['t', 'r', 'u', 'e'] (.boolean true) cs
    else if c = 'f' then readWord ['f', 'a', 'l', 's', 'e'] (.boolean false) cs
    else readDatetime cs <|> readFloat cs <|> readInteger cs

end Depsolve.Toml
