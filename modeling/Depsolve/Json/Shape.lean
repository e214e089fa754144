import Depsolve.Json.Value
import Depsolve.Sorted.Map

/-!
# Shapes of JSON values

Readers that give a value its type, or nothing if it has another. A record is an object with some of
the record's fields, each at most once, and no other members; a list of the fields' values in order
stands for it too. Of repeated members of a map the last counts.
-/

namespace Depsolve.Json

/-- A text. -/
def text? : Value → Option String
  | .string s => some s
  | _ => none

/-- A truth value. -/
def bool? : Value → Option Bool
  | .bool b => some b
  | _ => none

/-- The items of a list, each read by `f`. -/
def list? {α : Type} (f : Value → Option α) : Value → Option (List α)
  | .array items => items.mapM f
  | _ => none

/-- A list of texts as a set. -/
def set? (v : Value) : Option (SortedSet String) :=
  (list? text? v).map .ofList

/-- The members of a map, each value read by `f`. -/
def map? {α : Type} (f : Value → Option α) : Value → Option (SortedMap String α)
  | .object members =>
    (members.mapM fun (member : String × Value) =>
      (f member.2).map fun a => (member.1, a)).map SortedMap.ofList
  | _ => none

/-- The values of a record's fields, in order. A list of them gives at least the first `atLeast`. -/
def record? (fields : List String) (atLeast : Nat) : Value → Option (List (Option Value))
  | .object members =>
    let keys := members.map (·.1)
    if keys.all fields.contains && keys.eraseDups.length = keys.length then
      some (fields.map fun k => members.lookup k)
    else none
  | .array items =>
    if atLeast ≤ items.length ∧ items.length ≤ fields.length then
      some ((List.range fields.length).map fun i => items[i]?)
    else none
  | _ => none

/-- A value that may be null. -/
def nullable? {α : Type} (f : Value → Option α) : Value → Option (Option α)
  | .null => some none
  | v => (f v).map some

/-- A field that may be missing or null. -/
def optional? {α : Type} (f : Value → Option α) : Option Value → Option (Option α)
  | none => some none
  | some v => nullable? f v

/-- A field that has a value if it is missing. -/
def default? {α : Type} (f : Value → Option α) (default : α) : Option Value → Option α
  | none => some default
  | some v => f v

end Depsolve.Json
