import Depsolve.Json.Value
import Depsolve.Text.Hex

/-!
# Reading JSON

`Json.read` reads a strict JSON text: one value, with white space around it. A character above
U+FFFF may be written as a pair of surrogates; a surrogate alone is an error.
-/

namespace Depsolve.Json

/-- White space of JSON. -/
def isSpace (c : Char) : Bool :=
  c == ' ' || c == '\n' || c == '\t' || c == '\r'

/-- The text after white space in front. -/
def dropSpace (cs : List Char) : List Char :=
  cs.dropWhile isSpace

/-- Reads the second half of a surrogate pair after the first. -/
def readLowSurrogate (high : Nat) : List Char → Option (Char × List Char)
  | '\\' :: 'u' :: rest => do
    let (low, rest) ← Text.readHex 4 rest
    guard (0xDC00 ≤ low ∧ low ≤ 0xDFFF)
    return (← Text.charOf? (0x10000 + (high - 0xD800) * 0x400 + (low - 0xDC00)), rest)
  | _ => none

/-- Reads an escape after its backslash. -/
def readEscape : List Char → Option (Char × List Char)
  | '"' :: rest => some ('"', rest)
  | '\\' :: rest => some ('\\', rest)
  | '/' :: rest => some ('/', rest)
  | 'b' :: rest => some ('\x08', rest)
  | 'f' :: rest => some ('\x0c', rest)
  | 'n' :: rest => some ('\n', rest)
  | 'r' :: rest => some ('\r', rest)
  | 't' :: rest => some ('\t', rest)
  | 'u' :: rest => do
    let (n, rest) ← Text.readHex 4 rest
    if 0xD800 ≤ n ∧ n ≤ 0xDBFF then readLowSurrogate n rest
    else return (← Text.charOf? n, rest)
  | _ => none

/-- Reads the characters of a string after its opening quote. The number bounds the steps. -/
def readBody : Nat → List Char → Option (List Char × List Char)
  | 0, _ => none
  | _ + 1, [] => none
  | n + 1, c :: rest =>
    if c = '"' then some ([], rest)
    else if c = '\\' then do
      let (d, rest) ← readEscape rest
      let (body, rest) ← readBody n rest
      return (d :: body, rest)
    else if c.toNat < 0x20 then none
    else do
      let (body, rest) ← readBody n rest
      return (c :: body, rest)

/-- Reads a string after its opening quote. -/
def readString (cs : List Char) : Option (String × List Char) :=
  (readBody (cs.length + 1) cs).map fun (body, rest) => (String.ofList body, rest)

/-- The text after at least one digit. -/
def dropDigits (cs : List Char) : Option (List Char) :=
  match cs with
  | c :: _ => if c.isDigit then some (cs.dropWhile Char.isDigit) else none
  | [] => none

/-- The text after the whole part of a number: a zero, or digits that do not start with one. -/
def dropWhole : List Char → Option (List Char)
  | '0' :: rest => some rest
  | rest => dropDigits rest

/-- The text after the fraction of a number, if there is one. -/
def dropFraction : List Char → Option (List Char)
  | '.' :: rest => dropDigits rest
  | rest => some rest

/-- The text after the exponent of a number, if there is one. -/
def dropExponent : List Char → Option (List Char)
  | [] => some []
  | c :: rest =>
    if c = 'e' ∨ c = 'E' then
      match rest with
      | '+' :: rest => dropDigits rest
      | '-' :: rest => dropDigits rest
      | rest => dropDigits rest
    else some (c :: rest)

/-- Reads a number. -/
def readNumber (cs : List Char) : Option (Value × List Char) := do
  let unsigned :=
    match cs with
    | '-' :: rest => rest
    | rest => rest
  let rest ← dropWhole unsigned
  let rest ← dropFraction rest
  let rest ← dropExponent rest
  return (.number (String.ofList (cs.take (cs.length - rest.length))), rest)

mutual

/-- Reads a value; white space may stand in front. The number bounds the steps. -/
def readValue : Nat → List Char → Option (Value × List Char)
  | 0, _ => none
  | n + 1, cs =>
    match dropSpace cs with
    | 'n' :: 'u' :: 'l' :: 'l' :: rest => some (.null, rest)
    | 't' :: 'r' :: 'u' :: 'e' :: rest => some (.bool true, rest)
    | 'f' :: 'a' :: 'l' :: 's' :: 'e' :: rest => some (.bool false, rest)
    | '"' :: rest => (readString rest).map fun (s, rest) => (.string s, rest)
    | '[' :: rest =>
      match dropSpace rest with
      | ']' :: rest => some (.array [], rest)
      | rest => (readItems n rest).map fun (items, rest) => (.array items, rest)
    | '\x7b' :: rest =>
      match dropSpace rest with
      | '\x7d' :: rest => some (.object [], rest)
      | rest => (readMembers n rest).map fun (members, rest) => (.object members, rest)
    | rest => readNumber rest

/-- Reads the items of a list up to its closing bracket. -/
def readItems : Nat → List Char → Option (List Value × List Char)
  | 0, _ => none
  | n + 1, cs => do
    let (item, rest) ← readValue n cs
    match dropSpace rest with
    | ']' :: rest => return ([item], rest)
    | ',' :: rest =>
      let (items, rest) ← readItems n rest
      return (item :: items, rest)
    | _ => none

/-- Reads the members of an object up to its closing brace. -/
def readMembers : Nat → List Char → Option (List (String × Value) × List Char)
  | 0, _ => none
  | n + 1, cs =>
    match dropSpace cs with
    | '"' :: rest => do
      let (key, rest) ← readString rest
      match dropSpace rest with
      | ':' :: rest =>
        let (value, rest) ← readValue n rest
        match dropSpace rest with
        | '\x7d' :: rest => return ([(key, value)], rest)
        | ',' :: rest =>
          let (members, rest) ← readMembers n rest
          return ((key, value) :: members, rest)
        | _ => none
      | _ => none
    | _ => none

end

/-- Reads a whole text as one value. -/
def read (text : String) : Option Value :=
  let cs := text.toList
  match readValue (2 * cs.length + 2) cs with
  | some (v, rest) => if (dropSpace rest).isEmpty then some v else none
  | none => none

end Depsolve.Json
