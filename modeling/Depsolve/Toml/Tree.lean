import Depsolve.Toml.Value

/-!
# Tables under construction

The statements of a TOML document name the tables they add to. This module builds the document's
tree from them and refuses what TOML forbids: to write a key twice, to head a table twice, to reach
into a value, and to add to a table in a form other than the one it was made in.

A list of tables grows at its end, and a path that leads through it goes to its last table.
-/

namespace Depsolve.Toml

/-- How a table came to be. -/
inductive Origin
  /-- It has a header of its own, or is the document itself. -/
  | headed
  /-- The header of a table inside it implies it. -/
  | implied
  /-- A dotted key implies it. -/
  | dotted
deriving DecidableEq

/-- A part of the tree. -/
inductive Node
  /-- A value; it cannot grow. -/
  | leaf (value : Value)
  | table (origin : Origin) (entries : List (String × Node))
  /-- A list of tables, the last first. -/
  | tables (newest : List (String × Node)) (older : List (List (String × Node)))

/-- The content of a table under construction. -/
abbrev Entries := List (String × Node)

/-- The content with another node under a key that is there. -/
def Entries.replace (key : String) (node : Node) (entries : Entries) : Entries :=
  entries.map fun (k, n) => if k = key then (k, node) else (k, n)

/-- Changes the table at the end of a path by `f`, which is told how the table came to be. Tables on
the way that are missing are made: by dotted keys or by headers, as `byKey` says. Dotted keys may
not lead into a table that has a header. -/
def update (byKey : Bool) (f : Origin → Entries → Option Entries) :
    List String → Origin → Entries → Option Entries
  | [], origin, entries => f origin entries
  | key :: path, _, entries =>
    match entries.lookup key with
    | none =>
      let origin := if byKey then Origin.dotted else Origin.implied
      (update byKey f path origin []).map fun sub => entries ++ [(key, .table origin sub)]
    | some (.leaf _) => none
    | some (.table origin sub) =>
      if byKey ∧ origin = .headed then none
      else (update byKey f path origin sub).map fun sub => entries.replace key (.table origin sub)
    | some (.tables newest older) =>
      (update byKey f path .headed newest).map fun sub => entries.replace key (.tables sub older)

/-- Adds a value to a table under a key whose last segment is `key`. -/
def addPair (path : List String) (key : String) (value : Value) (origin : Origin)
    (entries : Entries) : Option Entries :=
  let add (origin : Origin) (entries : Entries) : Option Entries :=
    if (origin = .dotted) ↔ path = [] then none
    else if (entries.lookup key).isSome then none
    else some (entries ++ [(key, .leaf value)])
  update true add path origin entries

/-- Gives a table a header. -/
def headTable (key : String) (_ : Origin) (entries : Entries) : Option Entries :=
  match entries.lookup key with
  | none => some (entries ++ [(key, .table .headed [])])
  | some (.table .implied sub) => some (entries.replace key (.table .headed sub))
  | some _ => none

/-- Adds a table to a list of tables. -/
def pushTable (key : String) (_ : Origin) (entries : Entries) : Option Entries :=
  match entries.lookup key with
  | none => some (entries ++ [(key, .tables [] [])])
  | some (.tables newest older) => some (entries.replace key (.tables [] (newest :: older)))
  | some _ => none

mutual

/-- The value that a finished part of the tree stands for. -/
def Node.value : Node → Value
  | .leaf value => value
  | .table _ entries => .table (entriesValues entries)
  | .tables newest older => .array (tablesValues older [.table (entriesValues newest)])

/-- The values that the content of a finished table stands for. -/
def entriesValues : List (String × Node) → List (String × Value)
  | [] => []
  | (key, node) :: rest => (key, node.value) :: entriesValues rest

/-- The values that finished tables stand for, the last first, put before others. -/
def tablesValues : List (List (String × Node)) → List Value → List Value
  | [], later => later
  | entries :: older, later => tablesValues older (.table (entriesValues entries) :: later)

end

end Depsolve.Toml
