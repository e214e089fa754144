/-!
# Quoting in TOML

How a text is written as a TOML string or key: in the plainest form that can hold it. The forms in
order are double quotes, single quotes, three double quotes, three single quotes, and double quotes
with escapes.
-/

namespace Depsolve.Toml

/-- A control character other than tab and line feed. -/
def isControl (c : Char) : Bool :=
  (c.toNat < 0x20 && c != '\t' && c != '\n') || c.toNat == 0x7F

/-- The length of the longest run of a character. -/
def longestRun (q : Char) (cs : List Char) : Nat :=
  (cs.foldl (fun (best, now) c => if c = q then (max best (now + 1), now + 1) else (best, 0))
    (0, 0)).1

/-- The upper-case hexadecimal digit of a number below sixteen. -/
def upperHex (n : Nat) : Char :=
  (Nat.digitChar n).toUpper

/-- A character between double quotes. With `keepBreaks`, line feeds stay as they are; `quotes` is
the number of double quotes that stand unescaped right before the character, of which there may be
`allowed` in a row. Gives the text and the new number of quotes. -/
def escapeChar (keepBreaks : Bool) (allowed quotes : Nat) (c : Char) : String × Nat :=
  match c with
  | '\x08' => ("\\b", 0)
  | '\t' => ("\\t", 0)
  | '\n' => (if keepBreaks then "\n" else "\\n", 0)
  | '\x0c' => ("\\f", 0)
  | '\r' => ("\\r", 0)
  | '\\' => ("\\\\", 0)
  | '"' => if quotes < allowed then ("\"", quotes + 1) else ("\\\"", 0)
  | c =>
    if isControl c then
      (String.ofList ['\\', 'u', '0', '0', upperHex (c.toNat / 16), upperHex (c.toNat % 16)], 0)
    else (String.singleton c, 0)

/-- The text between double quotes. -/
def escapeFrom (keepBreaks : Bool) (allowed quotes : Nat) : List Char → String
  | [] => ""
  | c :: rest =>
    let (text, quotes) := escapeChar keepBreaks allowed quotes c
    text ++ escapeFrom keepBreaks allowed quotes rest

/-- The one-line form in double quotes. -/
def basicString (cs : List Char) : String :=
  "\"" ++ escapeFrom false 0 0 cs ++ "\""

/-- The form in single quotes. -/
def literalString (cs : List Char) : String :=
  "'" ++ String.ofList cs ++ "'"

/-- The line break after the opening quotes of a form of several lines: it is there if the text has
one. -/
def openingBreak (cs : List Char) : String :=
  if cs.contains '\n' then "\n" else ""

/-- The form of several lines in double quotes. -/
def longBasicString (cs : List Char) : String :=
  "\"\"\"" ++ openingBreak cs ++ escapeFrom true 2 0 cs ++ "\"\"\""

/-- The form of several lines in single quotes. -/
def longLiteralString (cs : List Char) : String :=
  "'''" ++ openingBreak cs ++ String.ofList cs ++ "'''"

/-- A text as a TOML string. -/
def quoteString (s : String) : String :=
  let cs := s.toList
  let hasControl := cs.any isControl
  let hasBreak := cs.contains '\n'
  if ! hasControl && ! hasBreak && ! cs.contains '\\' && ! cs.contains '"' then basicString cs
  else if ! hasControl && ! hasBreak && ! cs.contains '\'' then literalString cs
  else if ! hasControl && ! cs.contains '\\' && longestRun '"' cs ≤ 2 then longBasicString cs
  else if ! hasControl && longestRun '\'' cs ≤ 2 then longLiteralString cs
  else if hasBreak then longBasicString cs
  else basicString cs

/-- A text as a TOML key: bare if it can be. -/
def quoteKey (s : String) : String :=
  let cs := s.toList
  let isBare (c : Char) : Bool := c.isAlphanum || c == '_' || c == '-'
  let hasControl := cs.any fun c => isControl c || c == '\n'
  if ! cs.isEmpty && cs.all isBare then s
  else if ! hasControl && ! cs.contains '\\' && ! cs.contains '"' then basicString cs
  else if ! hasControl && ! cs.contains '\'' then literalString cs
  else basicString cs

end Depsolve.Toml
