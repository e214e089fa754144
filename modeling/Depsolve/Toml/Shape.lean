import Depsolve.Toml.Value

/-!
# Shapes of TOML values

Readers that give a value its type, or nothing if it has another. A record is a table that has no
other keys than the record's fields; a list of the fields' values in order stands for it too.
-/

namespace Depsolve.Toml

/-- A text. -/
def text? : Value → Option String
  | .string s => some s
  | _ => none

/-- The items of a list, each read by `f`. -/
def list? {α : Type} (f : Value → Option α) : Value → Option (List α)
  | .array items => items.mapM f
  | _ => none

/-- The entries of a table, each value read by `f`. -/
def table? {α : Type} (f : Value → Option α) : Value → Option (List (String × α))
  | .table entries => entries.mapM fun (k, v) => (f v).map fun a => (k, a)
  | _ => none

/-- A number below `limit`. -/
def natBelow? (limit : Nat) : Value → Option Nat
  | .integer n => if 0 ≤ n ∧ n < limit then some n.toNat else none
  | _ => none

/-- The values of a record's fields, in order. -/
def record? (fields : List String) : Value → Option (List (Option Value))
  | .table entries =>
    if entries.all fun (k, _) => fields.contains k then some (fields.map fun k => entries.lookup k)
    else none
  | .array items => some ((List.range fields.length).map fun i => items[i]?)
  | _ => none

/-- A field that may be missing. -/
def optional? {α : Type} (f : Value → Option α) : Option Value → Option (Option α)
  | none => some none
  | some v => (f v).map some

/-- A field that has a value if it is missing. -/
def default? {α : Type} (f : Value → Option α) (default : α) : Option Value → Option α
  | none => some default
  | some v => f v

end Depsolve.Toml
