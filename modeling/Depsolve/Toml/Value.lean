/-!
# TOML values

The data of a TOML document. Numbers other than integers, and dates and times, keep the text they
are written with.
-/

namespace Depsolve.Toml

/-- A TOML value. -/
inductive Value
  | string (text : String)
  | integer (n : Int)
  /-- Any other number. -/
  | float (text : String)
  | boolean (b : Bool)
  /-- A date, a time or both. -/
  | datetime (text : String)
  | array (items : List Value)
  /-- Values under different keys, in the order in which the keys were first written. -/
  | table (entries : List (String × Value))
deriving Inhabited

end Depsolve.Toml
