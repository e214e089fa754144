import Depsolve.Toml.Quote
import Depsolve.Toml.Value

/-!
# Writing TOML documents

`Toml.write` writes the entries of a document. In every table the plain entries come first, one to a
line, then the tables inside it under headers of their own. A table that holds nothing but tables
needs no header. A list of more than one item has a line for each.
-/

namespace Depsolve.Toml

/-- Whether a value is a table. -/
def Value.isTable : Value → Bool
  | .table _ => true
  | _ => false

/-- A value that is written under a header: a table or a list of tables. -/
def Value.isHeaded : Value → Bool
  | .table _ => true
  | .array items => ! items.isEmpty && items.all Value.isTable
  | _ => false

mutual

/-- A value as it stands behind an equals sign. -/
def Value.inline : Value → String
  | .string s => quoteString s
  | .integer n => toString n
  | .float text => text
  | .boolean b => if b then "true" else "false"
  | .datetime text => text
  | .array [] => "[]"
  | .array [item] => "[" ++ item.inline ++ "]"
  | .array (first :: second :: rest) => "[\n" ++ indentedItems (first :: second :: rest) ++ "]"
  | .table [] => "\x7b\x7d"
  | .table ((key, value) :: rest) =>
    "\x7b " ++ quoteKey key ++ " = " ++ value.inline ++ inlinePairs rest ++ " \x7d"

/-- Items, each on a line of its own. -/
def indentedItems : List Value → String
  | [] => ""
  | item :: rest => "    " ++ item.inline ++ ",\n" ++ indentedItems rest

/-- Entries after the first of a table on one line. -/
def inlinePairs : List (String × Value) → String
  | [] => ""
  | (key, value) :: rest => ", " ++ quoteKey key ++ " = " ++ value.inline ++ inlinePairs rest

end

/-- The plain entries of a table, one to a line. -/
def plainLines : List (String × Value) → String
  | [] => ""
  | (key, value) :: rest =>
    (if value.isHeaded then "" else quoteKey key ++ " = " ++ value.inline ++ "\n") ++
      plainLines rest

/-- The path of a table as it stands in a header. -/
def headerPath (path : List String) : String :=
  ".".intercalate (path.map quoteKey)

/-- A table without plain entries that has others needs no header. -/
def needsHeader (entries : List (String × Value)) : Bool :=
  entries.isEmpty || entries.any fun (_, v) => ! v.isHeaded

mutual

/-- The parts of a document that a value brings under headers of their own. -/
def Value.sections (path : List String) : Value → List String
  | .table entries =>
    let own := plainLines entries
    let inner := entriesSections path entries
    if needsHeader entries then ("[" ++ headerPath path ++ "]\n" ++ own) :: inner else inner
  | .array items => itemsSections path items
  | _ => []

/-- The parts under headers that the entries of a table bring. -/
def entriesSections (path : List String) : List (String × Value) → List String
  | [] => []
  | (key, value) :: rest =>
    (if value.isHeaded then value.sections (path ++ [key]) else []) ++ entriesSections path rest

/-- The parts that the tables of a list bring. -/
def itemsSections (path : List String) : List Value → List String
  | [] => []
  | .table entries :: rest =>
    ("[[" ++ headerPath path ++ "]]\n" ++ plainLines entries) :: entriesSections path entries ++
      itemsSections path rest
  | _ :: rest => itemsSections path rest

end

/-- The text of a document: its parts with a blank line before each header. -/
def write (entries : List (String × Value)) : String :=
  let own := plainLines entries
  let parts := entriesSections [] entries
  "\n".intercalate (if own = "" then parts else own :: parts)

end Depsolve.Toml
