/-!
# JSON values

The data of a JSON text. An object keeps all its members in order, those with a repeated key too;
what a repetition means is for the reader of the object to say.
-/

namespace Depsolve.Json

/-- A JSON value. -/
inductive Value
  | null
  | bool (b : Bool)
  /-- A number as it is written. -/
  | number (text : String)
  | string (text : String)
  | array (items : List Value)
  /-- Members in order. -/
  | object (members : List (String × Value))
deriving Inhabited

end Depsolve.Json
